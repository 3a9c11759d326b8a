import Mathlib.Tactic.ByContra
import ProtoSchema.Output.Sink

/-!
# The capacity of a sink

How a sink cuts a write into calls shows neither in the bytes it ends up with nor in what it comes
to a halt by. `Sink.writeAll` either brings in the whole content or exactly as much of it as the
sink has capacity for, and in the second case it comes to a halt by the one obstacle that the sink
has. From this it follows that writing two contents one after the other is the same as writing them
at once.

A sink that takes no byte per call has no capacity, whatever its limit says. It is kept in all
statements of this file, so that writers above a sink need no assumption about it.
-/

namespace ProtoSchema

namespace Outcome

variable {State : Type}

theorem andThen_assoc (outcome : Outcome State) (second third : State → Outcome State) :
    (outcome.andThen second).andThen third =
      outcome.andThen fun state => (second state).andThen third := by
  rcases outcome with ⟨state, _ | error⟩ <;> rfl

end Outcome

/-- What writing all bytes comes to a halt by once the sink is full. -/
def Refusal.halt : Refusal → Halt
  | fail error => error.halt
  | stall => .failed .incomplete

namespace Sink

/-- The sink with further bytes behind those it has taken. -/
def hold (sink : Sink) (content : List UInt8) : Sink :=
  { sink with written := sink.written ++ content }

/-- How many more bytes calls can bring into the sink. -/
def capacity (sink : Sink) : Option Nat :=
  if sink.chunk = some 0 then some 0 else sink.room

/-- What a sequence of calls comes to a halt by when the capacity is used up. -/
def obstacle (sink : Sink) : Halt :=
  if sink.chunk = some 0 ∧ sink.room ≠ some 0 then .failed .incomplete else sink.refusal.halt

@[simp]
theorem hold_nil (sink : Sink) : sink.hold [] = sink := by
  simp [hold]

@[simp]
theorem hold_hold (sink : Sink) (first second : List UInt8) :
    (sink.hold first).hold second = sink.hold (first ++ second) := by
  have written_eq : sink.written ++ first ++ second = sink.written ++ (first ++ second) := by
    apply Array.ext'
    simp
  simp [hold, written_eq]

@[simp]
theorem toList_written_hold (sink : Sink) (content : List UInt8) :
    (sink.hold content).written.toList = sink.written.toList ++ content := by
  simp [hold]

theorem room_hold (sink : Sink) (content : List UInt8) :
    (sink.hold content).room = sink.room.map (· - content.length) := by
  rcases sink with ⟨written, _ | limit, chunk, refusal, flushFails, flushes⟩
  · rfl
  · have size_eq : (written ++ content).size = written.size + content.length := by
      rw [← Array.length_toList, Array.toList_appendList, List.length_append, Array.length_toList]
    simp only [hold, room, Option.map_some, Option.some.injEq, size_eq]
    omega

theorem capacity_hold (sink : Sink) (content : List UInt8) :
    (sink.hold content).capacity = sink.capacity.map (· - content.length) := by
  by_cases idle : sink.chunk = some 0
  · simp [capacity, hold, idle]
  · have idle' : (sink.hold content).chunk ≠ some 0 := idle
    simp only [capacity, idle, idle', if_false]
    exact room_hold sink content

/-- A sink without a limit that takes something in each call has room for everything. -/
theorem capacity_of_unlimited {sink : Sink} (unlimited : sink.limit = none)
    (progress : sink.chunk ≠ some 0) : sink.capacity = none := by
  simp [capacity, room, unlimited, progress]

theorem obstacle_hold {sink : Sink} (content : List UInt8) (active : sink.capacity ≠ some 0) :
    (sink.hold content).obstacle = sink.obstacle := by
  have notIdle : sink.chunk ≠ some 0 := by
    intro idle
    simp [capacity, idle] at active
  have notIdle' : (sink.hold content).chunk ≠ some 0 := notIdle
  simp only [obstacle, notIdle, notIdle', false_and, if_false]
  rfl

/-- Where each call takes something, only the limit of the sink is an obstacle. -/
theorem obstacle_of_progress {sink : Sink} (progress : sink.chunk ≠ some 0) :
    sink.obstacle = sink.refusal.halt := by
  simp [obstacle, progress]

theorem writeAll_of_capacity_zero {sink : Sink} {content : List UInt8} (nonempty : content ≠ [])
    (used : sink.capacity = some 0) : sink.writeAll content = .halted sink.obstacle sink := by
  rw [writeAll, if_neg nonempty]
  by_cases full : sink.room = some 0
  · simp only [write, full, if_true, obstacle, ne_eq, not_true_eq_false, and_false, if_false]
    cases sink.refusal <;> rfl
  · have idle : sink.chunk = some 0 := by
      by_contra active
      simp only [capacity, active, if_false] at used
      exact full used
    have none_accepted : sink.accepted content.length = 0 := by
      cases room_eq : sink.room <;> simp [accepted, atMost, idle, room_eq]
    have written_eq : (sink.write content) = (.ok 0, sink) := by
      simp [write, full, none_accepted]
    simp [written_eq, obstacle, idle, full]

theorem atMost_le (bound : Option Nat) (count : Nat) : atMost bound count ≤ count := by
  cases bound with
  | none => exact Nat.le_refl count
  | some bound => exact Nat.min_le_left count bound

theorem atMost_le_bound {bound : Option Nat} {limit : Nat} (count : Nat) (bounded : limit ∈ bound) :
    atMost bound count ≤ limit := by
  rw [Option.mem_def.mp bounded]
  exact Nat.min_le_right count limit

theorem atMost_pos {bound : Option Nat} {count : Nat} (bound_ne : bound ≠ some 0)
    (count_pos : 0 < count) : 0 < atMost bound count := by
  cases bound with
  | none => exact count_pos
  | some bound =>
      have bound_pos : bound ≠ 0 := by simpa using bound_ne
      exact Nat.lt_min.mpr ⟨count_pos, Nat.pos_of_ne_zero bound_pos⟩

/-- As long as there is capacity, one call brings in at least one byte and goes on with the rest. -/
theorem writeAll_step {sink : Sink} {content : List UInt8} (nonempty : content ≠ [])
    (active : sink.capacity ≠ some 0) :
    ∃ count, 0 < count ∧ count ≤ content.length ∧ (∀ room ∈ sink.capacity, count ≤ room) ∧
      sink.writeAll content =
        (sink.hold (content.take count)).writeAll (content.drop count) := by
  have notIdle : sink.chunk ≠ some 0 := by
    intro idle
    simp [capacity, idle] at active
  have capacity_eq : sink.capacity = sink.room := by
    simp [capacity, notIdle]
  rw [capacity_eq] at active ⊢
  have length_pos : 0 < content.length := List.length_pos_iff.mpr nonempty
  have accepted_pos : 0 < sink.accepted content.length :=
    atMost_pos active (atMost_pos notIdle length_pos)
  refine ⟨sink.accepted content.length, accepted_pos, ?_, ?_, ?_⟩
  · exact Nat.le_trans (atMost_le _ _) (atMost_le _ _)
  · intro room room_mem
    exact atMost_le_bound _ room_mem
  · rw [writeAll, if_neg nonempty]
    obtain ⟨more, accepted_eq⟩ : ∃ more, sink.accepted content.length = more + 1 :=
      ⟨sink.accepted content.length - 1, by omega⟩
    simp [write, active, accepted_eq, hold]

/-- What fits is written in full. -/
theorem writeAll_of_le {sink : Sink} {content : List UInt8}
    (fits : ∀ capacity ∈ sink.capacity, content.length ≤ capacity) :
    sink.writeAll content = .done (sink.hold content) := by
  induction size : content.length using Nat.strongRecOn generalizing sink content with
  | ind length ih =>
      by_cases nonempty : content = []
      · simp [nonempty]
      · have length_pos : 0 < content.length := List.length_pos_iff.mpr nonempty
        have active : sink.capacity ≠ some 0 := by
          intro used
          have := fits 0 used
          omega
        rcases writeAll_step nonempty active with ⟨count, count_pos, count_le, -, step⟩
        have rest_fits : ∀ capacity ∈ (sink.hold (content.take count)).capacity,
            (content.drop count).length ≤ capacity := by
          intro capacity capacity_mem
          rw [capacity_hold] at capacity_mem
          rcases Option.map_eq_some_iff.mp capacity_mem with ⟨before, before_mem, rfl⟩
          have := fits before before_mem
          simp only [List.length_drop, List.length_take]
          omega
        rw [step, ih _ (by simp only [List.length_drop]; omega) rest_fits rfl, hold_hold,
          List.take_append_drop]

/-- What does not fit is cut off where the capacity ends. -/
theorem writeAll_of_lt {sink : Sink} {content : List UInt8} {capacity : Nat}
    (capacity_eq : sink.capacity = some capacity) (overflow : capacity < content.length) :
    sink.writeAll content = .halted sink.obstacle (sink.hold (content.take capacity)) := by
  induction size : content.length using Nat.strongRecOn generalizing sink content capacity with
  | ind length ih =>
      have nonempty : content ≠ [] := by
        rintro rfl
        simp at overflow
      by_cases used : capacity = 0
      · subst used
        simp [writeAll_of_capacity_zero nonempty capacity_eq]
      · have active : sink.capacity ≠ some 0 := by
          rw [capacity_eq]
          simpa using used
        rcases writeAll_step nonempty active with ⟨count, count_pos, count_le, count_fits, step⟩
        have count_le_capacity := count_fits capacity capacity_eq
        have rest_capacity :
            (sink.hold (content.take count)).capacity = some (capacity - count) := by
          rw [capacity_hold, capacity_eq]
          simp [count_le]
        have rest_overflow : capacity - count < (content.drop count).length := by
          simp only [List.length_drop]
          omega
        have taken : content.take count ++ (content.drop count).take (capacity - count) =
            content.take capacity := by
          rw [← List.take_add, Nat.add_sub_cancel' count_le_capacity]
        rw [step, ih _ (by simp only [List.length_drop]; omega) rest_capacity rest_overflow rfl,
          hold_hold, taken, obstacle_hold _ active]

/-- What did not fit meets the same obstacle again. -/
theorem writeAll_leftover {sink : Sink} {content : List UInt8} {capacity : Nat}
    (capacity_eq : sink.capacity = some capacity) (overflow : capacity < content.length) :
    (sink.writeAll content).state.writeAll (content.drop capacity) =
      .halted sink.obstacle (sink.writeAll content).state := by
  have left_over : content.drop capacity ≠ [] := by simpa using overflow
  have used : (sink.hold (content.take capacity)).capacity = some 0 := by
    simp [capacity_hold, capacity_eq, Nat.le_of_lt overflow]
  rw [writeAll_of_lt capacity_eq overflow, Outcome.halted,
    writeAll_of_capacity_zero left_over used]
  by_cases unused : capacity = 0
  · simp [unused]
  · rw [obstacle_hold _ (by simpa [capacity_eq] using unused)]

/-- Two contents may be written at once or one after the other. -/
theorem writeAll_append (sink : Sink) (first second : List UInt8) :
    sink.writeAll (first ++ second) =
      (sink.writeAll first).andThen fun sink => sink.writeAll second := by
  cases capacity_eq : sink.capacity with
  | none =>
      have rest_eq : (sink.hold first).capacity = none := by
        rw [capacity_hold, capacity_eq, Option.map_none]
      rw [writeAll_of_le (by simp [capacity_eq]), writeAll_of_le (by simp [capacity_eq]),
        Outcome.andThen_done, writeAll_of_le (by simp [rest_eq]), hold_hold]
  | some capacity =>
      have rest_eq : (sink.hold first).capacity = some (capacity - first.length) := by
        rw [capacity_hold, capacity_eq, Option.map_some]
      by_cases first_fits : first.length ≤ capacity
      · have first_eq : sink.writeAll first = .done (sink.hold first) :=
          writeAll_of_le (by simpa [capacity_eq] using first_fits)
        rw [first_eq, Outcome.andThen_done]
        by_cases both_fit : (first ++ second).length ≤ capacity
        · rw [writeAll_of_le (by simpa [capacity_eq] using both_fit), writeAll_of_le, hold_hold]
          simp only [List.length_append] at both_fit
          simp only [rest_eq, Option.mem_def, Option.some.injEq, forall_eq']
          omega
        · have overflow : capacity < (first ++ second).length := by omega
          rw [writeAll_of_lt capacity_eq overflow]
          by_cases used : capacity = 0
          · have first_nil : first = [] := List.length_eq_zero_iff.mp (by omega)
            subst first_nil
            simp only [List.nil_append] at overflow
            rw [hold_nil, writeAll_of_lt capacity_eq overflow, List.nil_append]
          · rw [writeAll_of_lt rest_eq (by simp only [List.length_append] at overflow; omega),
              obstacle_hold _ (by simpa [capacity_eq] using used), hold_hold,
              List.take_append, List.take_of_length_le first_fits]
      · have overflow : capacity < first.length := by omega
        rw [writeAll_of_lt capacity_eq overflow, Outcome.andThen_halted,
          writeAll_of_lt capacity_eq (by simp only [List.length_append]; omega),
          List.take_append_of_le_length (by omega)]

end Sink

end ProtoSchema
