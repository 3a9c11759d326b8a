import ProtoSchema.Proofs.Output.Calls

/-!
# Going on after a failed write

A write through an adapter fails when the sink is full, which may be anywhere: inside a line,
between two lines, behind an indentation or in the middle of one. This file follows the adapter
across such a failure. Once the sink takes bytes again, the bytes that were left over can be written
through the same adapter, and the output is what it would have been without the failure. One case is
different: an adapter does not count the spaces of an indentation that did not get through in full.
It begins that line again, and the spaces already written stay in front of it.

`Text.Interrupted` says where a write has stopped, in terms of the bytes that reached the sink and
nothing else. The state of the adapter at that place is `Text.unbegun`.
-/

namespace ProtoSchema

namespace Text

/-- Where a write of `content` has stopped if it brought `received` to the sink: `sent` went out,
indented, then `lead` spaces of the indentation of the next line, and `rest` was left over. -/
structure Interrupted (width : Nat) (start : Bool) (content received sent rest : List UInt8)
    (lead : Nat) : Prop where
  content_eq : content = sent ++ rest
  received_eq : received = indented width start sent ++ List.replicate lead space
  lead_le : lead ≤ width
  opens : lead ≠ 0 → startAfter start sent = true ∧ ∃ byte ∈ rest.head?, byte ≠ newline

/-- Whether the line of the next byte is still to be begun, behind `lead` spaces: it is not if the
byte needs an indentation and that is complete. -/
def unbegun (width : Nat) (start : Bool) (rest : List UInt8) (lead : Nat) : Bool :=
  start && (rest.head? == some newline || lead != width)

theorem indented_cons (width : Nat) (start : Bool) (byte : UInt8) (more : List UInt8) :
    indented width start (byte :: more) =
      List.replicate (if start && byte != newline then width else 0) space ++
        byte :: indented width (byte == newline) more := by
  rw [indented]
  split <;> rfl

/-- Wherever the output is cut off, there is a place in the content that this corresponds to. -/
theorem exists_interrupted {width : Nat} {start : Bool} {content : List UInt8} {count : Nat}
    (cut : count < (indented width start content).length) :
    ∃ sent rest lead, Interrupted width start content
      ((indented width start content).take count) sent rest lead := by
  induction content generalizing start count with
  | nil => simp at cut
  | cons byte more ih =>
      rw [indented_cons] at cut ⊢
      generalize pad_eq : (if start && byte != newline then width else 0) = pad at cut ⊢
      by_cases inside : count ≤ pad
      · -- The output ends before the first byte, with a part of its indentation.
        refine ⟨[], byte :: more, count, rfl, ?_, ?_, ?_⟩
        · simp [List.take_append_of_le_length, List.take_replicate, inside]
        · split at pad_eq <;> omega
        · intro count_ne
          split at pad_eq
          · simpa using ‹(start && byte != newline) = true›
          · omega
      · obtain ⟨further, rfl⟩ := Nat.exists_eq_add_of_lt (Nat.not_le.mp inside)
        simp only [List.length_append, List.length_replicate, List.length_cons] at cut
        have cut_rest : further < (indented width (byte == newline) more).length := by omega
        rcases ih cut_rest with ⟨sent, rest, lead, content_eq, received_eq, lead_le, opens⟩
        refine ⟨byte :: sent, rest, lead, ?_, ?_, lead_le, opens⟩
        · simp [content_eq]
        · rw [indented_cons, pad_eq, List.append_assoc, List.cons_append, ← received_eq]
          simp [List.take_append, List.take_replicate, Nat.add_assoc]

theorem Interrupted.rest_ne_nil {width lead : Nat} {start : Bool}
    {content received sent rest : List UInt8}
    (interrupted : Interrupted width start content received sent rest lead)
    (short : received.length < (indented width start content).length) : rest ≠ [] := by
  rintro rfl
  have lead_eq : lead = 0 := by
    by_contra lead_ne
    simpa using interrupted.opens lead_ne
  rw [interrupted.received_eq, interrupted.content_eq, lead_eq] at short
  simp at short

theorem Interrupted.indentation_restarts {width lead : Nat} {start : Bool}
    {content received sent rest : List UInt8}
    (interrupted : Interrupted width start content received sent rest lead) (lead_ne : lead ≠ 0) :
    List.replicate width space <+: indented width (startAfter start sent) rest := by
  rcases interrupted.opens lead_ne with ⟨atStart, byte, byte_mem, visible⟩
  obtain ⟨more, rfl⟩ := List.head?_eq_some_iff.mp byte_mem
  simp [indented_cons, atStart, visible]

/-- Going on where a write has stopped completes the output, with the spaces of a torn indentation
in front of the line that it belongs to. -/
theorem Interrupted.append_resumed {width lead : Nat} {start : Bool}
    {content received sent rest : List UInt8}
    (interrupted : Interrupted width start content received sent rest lead) :
    received ++ indented width (unbegun width (startAfter start sent) rest lead) rest =
      indented width start sent ++ List.replicate (if lead = width then 0 else lead) space ++
        indented width (startAfter start sent) rest := by
  rcases interrupted with ⟨-, rfl, -, opens⟩
  by_cases torn : lead = 0
  · -- Nothing of an indentation is out, so the adapter is where it would be without a failure.
    subst torn
    have same : indented width (unbegun width (startAfter start sent) rest 0) rest =
        indented width (startAfter start sent) rest := by
      cases width with
      | zero => cases rest <;> simp [indented_cons]
      | succ width => simp [unbegun]
    simp [same]
  · rcases opens torn with ⟨atStart, byte, byte_mem, visible⟩
    obtain ⟨more, rfl⟩ : ∃ more, rest = byte :: more := List.head?_eq_some_iff.mp byte_mem
    by_cases complete : lead = width
    · simp [complete, atStart, unbegun, indented_cons, visible]
    · have begins : (lead != width) = true := by simpa using complete
      simp [complete, atStart, unbegun, begins]

end Text

namespace Adapter

section

variable {width lead : Nat} {start : Bool} {byte : UInt8} {sink : Sink}

theorem writeAll_refused (full : sink.capacity = some 0) :
    Writer.writeAll 0 (.base sink) [byte] = .halted sink.obstacle (.base sink) := by
  simp [Writer.writeAll, Sink.writeAll_of_capacity_zero (List.cons_ne_nil byte []) full]

/-- A byte that needs no indentation is refused by a full sink, and nothing changes. -/
theorem passRun_refused (begun : ¬(start = true ∧ byte ≠ Text.newline))
    (full : sink.capacity = some 0) :
    passRun (Writer.writeAll 0) [byte] (⟨width, start⟩, .base sink) =
      .halted sink.obstacle (⟨width, start⟩, .base sink) := by
  cases start with
  | false => simp [passRun_inside, writeAll_refused full, Outcome.halted]
  | true =>
      obtain rfl : byte = Text.newline := by simpa using begun
      simp [passRun, startLine, writeAll_refused full, Outcome.halted]

/-- When the indentation is torn, the line is still to be begun. -/
theorem passRun_torn (visible : byte ≠ Text.newline) (capacity_eq : sink.capacity = some lead)
    (torn : lead < width) :
    passRun (Writer.writeAll 0) [byte] (⟨width, true⟩, .base sink) =
      .halted sink.obstacle (⟨width, true⟩,
        .base (sink.hold (List.replicate lead Text.space))) := by
  have overflow : lead < (List.replicate width Text.space).length := by
    rwa [List.length_replicate]
  have indented_eq : Writer.writeAll 0 (.base sink) (List.replicate width Text.space) =
      .halted sink.obstacle (.base (sink.hold (List.replicate lead Text.space))) := by
    rw [Writer.writeAll, Sink.writeAll_of_lt capacity_eq overflow, List.take_replicate,
      Nat.min_eq_left (Nat.le_of_lt torn), Outcome.map_halted]
  rw [passRun_begin visible]
  simp [startLine, indentation, visible, indented_eq, Outcome.andThen, Outcome.halted]

/-- When the indentation is the last thing that gets through, the line has begun. -/
theorem passRun_indented (visible : byte ≠ Text.newline)
    (capacity_eq : sink.capacity = some width) :
    ∃ halt, passRun (Writer.writeAll 0) [byte] (⟨width, true⟩, .base sink) =
      .halted halt (⟨width, false⟩, .base (sink.hold (List.replicate width Text.space))) := by
  have indented_eq : Writer.writeAll 0 (.base sink) (List.replicate width Text.space) =
      .done (.base (sink.hold (List.replicate width Text.space))) := by
    rw [Writer.writeAll, Sink.writeAll_of_le (by simp [capacity_eq]), Outcome.map_done]
  have full : (sink.hold (List.replicate width Text.space)).capacity = some 0 := by
    simp [Sink.capacity_hold, capacity_eq]
  refine ⟨(sink.hold (List.replicate width Text.space)).obstacle, ?_⟩
  rw [passRun_begin visible]
  simp [startLine, indentation, visible, indented_eq, passRun_inside, writeAll_refused full,
    Outcome.andThen, Outcome.done, Outcome.halted]

/-- The first byte that does not get through leaves the adapter where its line is still to be begun
or not. -/
theorem passRun_stopped (capacity_eq : sink.capacity = some lead) (lead_le : lead ≤ width)
    (opens : lead ≠ 0 → start = true ∧ byte ≠ Text.newline) (more : List UInt8) :
    ∃ halt, passRun (Writer.writeAll 0) [byte] (⟨width, start⟩, .base sink) =
      .halted halt (⟨width, Text.unbegun width start (byte :: more) lead⟩,
        .base (sink.hold (List.replicate lead Text.space))) := by
  by_cases begins : start = true ∧ byte ≠ Text.newline
  · rcases begins with ⟨rfl, visible⟩
    rcases Nat.eq_or_lt_of_le lead_le with rfl | torn
    · have begun : Text.unbegun lead true (byte :: more) lead = false := by
        simp [Text.unbegun, visible]
      rw [begun]
      exact passRun_indented visible capacity_eq
    · have unbegun : Text.unbegun width true (byte :: more) lead = true := by
        simp [Text.unbegun, Nat.ne_of_lt torn]
      rw [unbegun]
      exact ⟨_, passRun_torn visible capacity_eq torn⟩
  · obtain rfl : lead = 0 := by
      by_contra lead_ne
      exact begins (opens lead_ne)
    have same : Text.unbegun width start (byte :: more) 0 = start := by
      cases start with
      | false => rfl
      | true =>
          obtain rfl : byte = Text.newline := by simpa using begins
          simp [Text.unbegun]
    rw [same, List.replicate_zero, Sink.hold_nil]
    exact ⟨_, passRun_refused begins capacity_eq⟩

end

end Adapter

theorem Sink.exists_overflow {sink : Sink} {content : List UInt8} {halt : Halt}
    (halted : (sink.writeAll content).halt = some halt) :
    ∃ capacity, sink.capacity = some capacity ∧ capacity < content.length := by
  by_contra fits
  have done : sink.writeAll content = .done (sink.hold content) := by
    apply Sink.writeAll_of_le
    intro capacity capacity_eq
    by_contra overflow
    exact fits ⟨capacity, capacity_eq, by omega⟩
  rw [done] at halted
  cases halted

namespace Writer

variable {depth : Nat}

theorem write_eq_error {adapter : Adapter} {below : Writer depth} {content : List UInt8}
    {error : WriteError} {stopped : Writer (depth + 1)}
    (failed : (layer adapter below).write content = (.error (.failed error), stopped)) :
    (writeAll (depth + 1) (layer adapter below) content).halt = some (.failed error) ∧
      (writeAll (depth + 1) (layer adapter below) content).state = stopped := by
  simp only [write] at failed
  split at failed <;> simp_all

/-- What a write that fails has brought to the sink: as much of its output as there was room for. -/
theorem write_failed_sink {width : Nat} {start : Bool} {sink : Sink} {content : List UInt8}
    {error : WriteError} {stopped : Writer 1}
    (failed :
      (layer ⟨width, start⟩ (base sink)).write content = (.error (.failed error), stopped)) :
    ∃ capacity, sink.capacity = some capacity ∧
      capacity < (Text.indented width start content).length ∧
      stopped.sink = sink.hold ((Text.indented width start content).take capacity) := by
  have tracks := writeAll_tracks [width] start content sink
  rw [List.sum_singleton] at tracks
  rcases write_eq_error failed with ⟨halt_eq, rfl⟩
  rcases Sink.exists_overflow (tracks.halt_eq.symm.trans halt_eq) with
    ⟨capacity, capacity_eq, overflow⟩
  rw [Sink.writeAll_of_lt capacity_eq overflow] at tracks
  exact ⟨capacity, capacity_eq, overflow, tracks.below_eq⟩

theorem write_accepting (width : Nat) (start : Bool) {sink : Sink}
    (accepting : sink.capacity = none) (content : List UInt8) :
    (layer ⟨width, start⟩ (base sink)).write content =
      (.ok content.length, layer ⟨width, Text.startAfter start content⟩
        (base (sink.hold (Text.indented width start content)))) := by
  have written : writeAll 1 (layer ⟨width, start⟩ (base sink)) content = _ :=
    writeAll_accepting [width] start accepting content
  simp only [write, written, List.sum_singleton]
  rfl

/-- The state in which a failed write leaves an adapter and the sink below it. -/
theorem writeAll_interrupted {width lead : Nat} {start : Bool} {sink : Sink}
    {content received sent rest : List UInt8}
    (interrupted : Text.Interrupted width start content received sent rest lead)
    (capacity_eq : sink.capacity = some received.length) (unfinished : rest ≠ []) :
    (writeAll 1 (layer ⟨width, start⟩ (base sink)) content).state =
      layer ⟨width, Text.unbegun width (Text.startAfter start sent) rest lead⟩
        (base (sink.hold received)) := by
  rcases interrupted with ⟨rfl, rfl, lead_le, opens⟩
  obtain ⟨byte, more, rfl⟩ := List.exists_cons_of_ne_nil unfinished
  rw [List.length_append, List.length_replicate] at capacity_eq
  have sent_eq : Adapter.pass (writeAll 0) sent (⟨width, start⟩, base sink) =
      .done (⟨width, Text.startAfter start sent⟩,
        base (sink.hold (Text.indented width start sent))) := by
    have tracks := Adapter.pass_tracks (writeAll_sequential 0) width start sent (base sink)
    rw [writeAll, Sink.writeAll_of_le (by simp [capacity_eq]), Outcome.map_done] at tracks
    exact tracks.eq_done
  have middle_capacity : (sink.hold (Text.indented width start sent)).capacity = some lead := by
    simp [Sink.capacity_hold, capacity_eq]
  have opens_byte : lead ≠ 0 → Text.startAfter start sent = true ∧ byte ≠ Text.newline := by
    simpa using opens
  rcases Adapter.passRun_stopped middle_capacity lead_le opens_byte more with ⟨halt, stopped⟩
  rw [writeAll, Adapter.pass_append (writeAll_sequential 0), sent_eq, Outcome.andThen_done,
    Adapter.pass_cons (writeAll_sequential 0), stopped, Outcome.andThen_halted, Outcome.map_halted,
    Sink.hold_hold]
  rfl

/-- A write that fails is completed by writing what it left over, once the sink takes bytes again.
The output is the same as without the failure, except that the spaces of an indentation which did
not get through in full are in front of that indentation. -/
theorem write_resumed (width : Nat) (start : Bool) (sink : Sink) (content : List UInt8)
    (error : WriteError) (stopped : Writer 1)
    (failed : (layer ⟨width, start⟩ (base sink)).write content = (.error (.failed error), stopped))
    (lifted : Sink) (kept : lifted.written = stopped.sink.written)
    (unlimited : lifted.limit = none) (progress : lifted.chunk ≠ some 0) :
    let whole := ((layer ⟨width, start⟩ (base {})).write content).2.sink.written.toList
    ∃ received : List UInt8, stopped.sink.written = sink.written ++ received ∧
      (∃ sent rest lead, Text.Interrupted width start content received sent rest lead) ∧
      ∀ sent rest lead, Text.Interrupted width start content received sent rest lead →
        let torn := if lead = width then 0 else lead
        ∃ (before after : List UInt8) (resumed : Writer 1),
          whole = before ++ after ∧
          received = before ++ List.replicate lead Text.space ∧
          (0 < torn → List.replicate width Text.space <+: after) ∧
          (stopped.withSink lifted).write rest = (.ok rest.length, resumed) ∧
          resumed.sink.written =
            sink.written ++ (before ++ List.replicate torn Text.space ++ after) ∧
          (torn = 0 → resumed.sink.written = sink.written ++ whole) := by
  intro whole
  rcases write_failed_sink failed with ⟨capacity, capacity_eq, overflow, stopped_sink⟩
  have received_length : ((Text.indented width start content).take capacity).length = capacity :=
    List.length_take_of_le (Nat.le_of_lt overflow)
  refine ⟨_, congrArg Sink.written stopped_sink, Text.exists_interrupted overflow, ?_⟩
  intro sent rest lead interrupted torn
  have unfinished : rest ≠ [] := by
    apply interrupted.rest_ne_nil
    rwa [received_length]
  have lifted_eq : stopped.withSink lifted =
      layer ⟨width, Text.unbegun width (Text.startAfter start sent) rest lead⟩ (base lifted) := by
    rw [← (write_eq_error failed).2, writeAll_interrupted interrupted _ unfinished]
    · rfl
    · rw [capacity_eq, received_length]
  have whole_eq : whole = Text.indented width start sent ++
      Text.indented width (Text.startAfter start sent) rest := by
    have fresh : ({} : Sink).capacity = none := rfl
    simp only [whole, write_accepting width start fresh content]
    simp [Writer.sink, interrupted.content_eq, Text.indented_append]
  have resumed_eq := write_accepting width
    (Text.unbegun width (Text.startAfter start sent) rest lead)
    (Sink.capacity_of_unlimited unlimited progress) rest
  rw [← lifted_eq] at resumed_eq
  have written_eq : (lifted.hold (Text.indented width
      (Text.unbegun width (Text.startAfter start sent) rest lead) rest)).written =
        sink.written ++ (Text.indented width start sent ++ List.replicate torn Text.space ++
          Text.indented width (Text.startAfter start sent) rest) := by
    rw [← interrupted.append_resumed]
    apply Array.ext'
    simp [kept, stopped_sink]
  refine ⟨_, _, _, whole_eq, interrupted.received_eq, ?_, resumed_eq, written_eq, ?_⟩
  · intro torn_pos
    apply interrupted.indentation_restarts
    rintro rfl
    simp [torn] at torn_pos
  · intro untorn
    simpa [Writer.sink, whole_eq, untorn] using written_eq

/-- The sink is full behind a blank line and half of the next indentation. Going on leaves that line
behind six spaces in place of four. -/
theorem write_resumed_torn :
    let sink : Sink := { limit := some 10, chunk := some 3, refusal := .stall }
    let content : List UInt8 := [0x61, 0x62, 0x0A, 0x0A, 0x63, 0x64]
    let stopped := ((layer ⟨4, true⟩ (base sink)).write content).2
    let lifted : Sink := { stopped.sink with limit := none }
    ((stopped.withSink lifted).write [0x63, 0x64]).2.sink.written.toList =
      List.replicate 4 0x20 ++ [0x61, 0x62, 0x0A, 0x0A] ++ List.replicate 6 0x20 ++
        [0x63, 0x64] := by
  intro sink content stopped lifted
  have failed :
      (layer ⟨4, true⟩ (base sink)).write content = (.error (.failed .incomplete), stopped) :=
    Prod.ext (by decide +kernel) rfl
  obtain ⟨received, received_eq, -, resumes⟩ :=
    write_resumed 4 true sink content .incomplete stopped failed lifted rfl rfl (by decide +kernel)
  have stopped_written : stopped.sink.written.toList =
      Text.indented 4 true [0x61, 0x62, 0x0A, 0x0A] ++ List.replicate 2 Text.space := by
    decide +kernel
  have interrupted : Text.Interrupted 4 true content received [0x61, 0x62, 0x0A, 0x0A] [0x63, 0x64]
      2 := by
    refine ⟨rfl, ?_, by decide, fun _ => ⟨by decide, 0x63, rfl, by decide⟩⟩
    rw [← stopped_written, received_eq]
    simp [sink]
  obtain ⟨before, after, resumed, whole_eq, split_eq, -, resumed_eq, written_eq, -⟩ :=
    resumes _ _ _ interrupted
  have before_eq : Text.indented 4 true [0x61, 0x62, 0x0A, 0x0A] = before :=
    List.append_cancel_right (interrupted.received_eq.symm.trans split_eq)
  have whole_split : before ++ (List.replicate 4 Text.space ++ [0x63, 0x64]) = before ++ after := by
    rw [← whole_eq, ← before_eq]
    decide +kernel
  rw [resumed_eq, written_eq, ← before_eq, ← List.append_cancel_left whole_split]
  decide

end Writer

end ProtoSchema
