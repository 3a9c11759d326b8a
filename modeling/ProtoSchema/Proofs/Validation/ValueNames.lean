import Mathlib.Data.Finset.Card
import ProtoSchema.Proofs.Validation.Blame

/-!
# Counting the names of an enum

Validation leaves out the scan for repeated value names if an enum has as many distinct names as
values. The count answers the question of the scan: `length_repeatsAfter` says that every member of
a list is either the first of its kind or reported by the scan. So the scan finds as many
repetitions as there are values more than names, and none exactly if the counts agree.
-/

namespace ProtoSchema

/-- Every member that is scanned is reported, or it is the first of its kind and new. -/
theorem length_repeatsAfter {α : Type} [DecidableEq α] (seen members : List α) :
    (repeatsAfter seen members).length + (members.toFinset \ seen.toFinset).card =
      members.length := by
  induction members generalizing seen with
  | nil => simp [repeatsAfter]
  | cons member rest ih =>
      rw [repeatsAfter, List.toFinset_cons, List.length_cons]
      by_cases known : member ∈ seen
      · have same : insert member rest.toFinset \ seen.toFinset =
            rest.toFinset \ seen.toFinset := by
          apply Finset.insert_sdiff_of_mem
          exact List.mem_toFinset.mpr known
        have reported := ih seen
        rw [if_pos known, same, List.length_cons]
        omega
      · have remembered : insert member rest.toFinset \ seen.toFinset =
            insert member (rest.toFinset \ (member :: seen).toFinset) := by
          ext other
          by_cases same : other = member
          · simp [same, known]
          · simp [same]
        have reported := ih (member :: seen)
        rw [if_neg known, remembered, Finset.card_insert_of_notMem (by simp)]
        omega

theorem length_repeats {α : Type} [DecidableEq α] (members : List α) :
    (repeats members).length + members.dedup.length = members.length := by
  have counted := length_repeatsAfter [] members
  rwa [List.toFinset_nil, Finset.sdiff_empty, List.card_toFinset] at counted

/-- Whether a problem is that two values of an enum share a name. -/
def Problem.isDuplicateEnumValue : Problem → Bool
  | duplicateEnumValue _ _ => true
  | _ => false

namespace Enumeration

/-- What is wrong with the first value of an enum, or with its absence. -/
def startProblems (path : String) : List EnumValue → List Problem
  | [] => [.emptyEnum path]
  | first :: _ =>
    if first.index = 0 then [] else [.firstEnumValueNotZero path first.name first.index]

/-- The problems of an enum whose values are scanned in any case. -/
def scannedProblems (enumeration : Enumeration) (path : String) : List Problem :=
  startProblems path enumeration.values ++
    (repeats (enumeration.values.map EnumValue.name)).map (.duplicateEnumValue path)

theorem problems_eq_scannedProblems (enumeration : Enumeration) (path : String) :
    enumeration.problems path = enumeration.scannedProblems path := by
  rw [problems, scannedProblems, valueProblems_eq_blame, ← map_repeats]
  cases values_eq : enumeration.values with
  | nil => rfl
  | cons first rest => rfl

theorem countP_startProblems (path : String) (values : List EnumValue) :
    (startProblems path values).countP Problem.isDuplicateEnumValue = 0 := by
  cases values with
  | nil => rfl
  | cons first rest =>
      rw [startProblems]
      split <;> rfl

theorem countP_scannedProblems (enumeration : Enumeration) (path : String) :
    (enumeration.scannedProblems path).countP Problem.isDuplicateEnumValue =
      (repeats (enumeration.values.map EnumValue.name)).length := by
  have all_counted : Problem.isDuplicateEnumValue ∘ Problem.duplicateEnumValue path =
      fun _ => true := rfl
  rw [scannedProblems, List.countP_append, countP_startProblems, List.countP_map, all_counted,
    List.countP_true, Nat.zero_add]

/-- The names of an enum are those of its values, each once: there are as many as there are
different ones, so no more than values, and as many as values if no two values share a name. That
the scan for repetitions is left out in this case makes no difference, and it reports as many as
there are values more than names. -/
theorem valueNames_count (enumeration : Enumeration) :
    (∀ name, name ∈ enumeration.valueNames ↔ ∃ value ∈ enumeration.values, value.name = name) ∧
      enumeration.valueNames.Nodup ∧
      enumeration.valueNames.length =
        (enumeration.values.map EnumValue.name).toFinset.card ∧
      enumeration.valueNames.length ≤ enumeration.values.length ∧
      (enumeration.valueNames.length = enumeration.values.length ↔
        enumeration.values.Pairwise fun value other => value.name ≠ other.name) ∧
      ∀ path, enumeration.problems path = enumeration.scannedProblems path ∧
        (enumeration.problems path).countP Problem.isDuplicateEnumValue =
          enumeration.values.length - enumeration.valueNames.length := by
  have names_eq := enumeration.valueNames_eq_dedup
  have counted := length_repeats (enumeration.values.map EnumValue.name)
  rw [← names_eq, List.length_map] at counted
  refine ⟨?_, ?_, ?_, by omega, ⟨?_, ?_⟩, ?_⟩
  · intro name
    rw [names_eq, List.mem_dedup, List.mem_map]
  · rw [names_eq]
    exact List.nodup_dedup _
  · rw [names_eq, List.card_toFinset]
  · intro length_eq
    exact List.pairwise_map.mp (nodup_of_valueNames_length length_eq)
  · intro distinct
    have nothing := congrArg List.length (repeats_eq_nil (List.pairwise_map.mpr distinct))
    rw [List.length_nil] at nothing
    omega
  · intro path
    refine ⟨enumeration.problems_eq_scannedProblems path, ?_⟩
    rw [problems_eq_scannedProblems, countP_scannedProblems]
    omega

end Enumeration

end ProtoSchema
