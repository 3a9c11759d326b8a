import Mathlib.Data.List.Forall2
import ProtoSchema.Proofs.Text.PaddedLines

/-!
# Sequences of calls

A writer is used by calls, each of which offers it some bytes and gets a reply, unless it never
comes back. A `trace` lists what successive calls lead to, up to and including the first that comes
to a halt. Nothing is said about later calls: a halt may have struck between the indentation of one
adapter and that of the next, and then the adapters disagree about where they are.

Two results are about traces. An adapter over a sink that takes everything pads the lines of the
bytes offered, however these are cut into calls. A stack of adapters does in every call what a
single adapter of their total width does. In both a call is reduced to one write to the sink, with
the state above it known from `Writer.aligned`.

A stack need not be made at one go. `Writer.Raised` describes stacks in use: adapters are put on top
at the start of a line, taken off again, and written through in between.
-/

namespace ProtoSchema

/-- An offer of bytes to a writer. -/
inductive Call
  /-- One write, which says how many bytes it took. -/
  | write (content : List UInt8)
  /-- As many writes as it takes. -/
  | writeAll (content : List UInt8)
  deriving DecidableEq

/-- What a call comes back with. -/
inductive Reply
  /-- So many bytes were taken by one write. -/
  | took (count : Nat)
  /-- All bytes were taken. -/
  | finished
  /-- The call failed. -/
  | failed (error : WriteError)
  /-- Nothing: the call goes on for ever. -/
  | endless
  deriving DecidableEq

/-- Whether a call came to a halt, so that none can follow it in the same way. -/
def Reply.isFailure : Reply → Bool
  | failed _ => true
  | endless => true
  | _ => false

/-- The reply of a call that comes to a halt. -/
def Halt.reply : Halt → Reply
  | failed error => .failed error
  | endless => .endless

namespace Call

/-- The bytes that a call offers. -/
def content : Call → List UInt8
  | write content => content
  | writeAll content => content

/-- The reply of a writer that has taken all bytes of the call. -/
def fullReply : Call → Reply
  | write content => .took content.length
  | writeAll _ => .finished

/-- The reply of a writer that takes all bytes of the call or comes to a halt. -/
def replyTo (call : Call) : Option Halt → Reply
  | none => call.fullReply
  | some halt => halt.reply

@[simp]
theorem isFailure_replyTo (call : Call) (halt : Option Halt) :
    (call.replyTo halt).isFailure = halt.isSome := by
  cases halt with
  | none => cases call <;> rfl
  | some halt => cases halt <;> rfl

end Call

namespace Writer

variable {depth : Nat}

/-- Makes a call. A single write replies with the number of bytes taken; writing all of them replies
only that it is finished. -/
def call (writer : Writer depth) : Call → Reply × Writer depth
  | .write content =>
    match writer.write content with
    | (.ok count, after) => (.took count, after)
    | (.error halt, after) => (halt.reply, after)
  | .writeAll content =>
    let outcome := writeAll depth writer content
    ((Call.writeAll content).replyTo outcome.halt, outcome.state)

/-- The replies to successive calls, each with the writer it leaves behind, up to and including the
first halt. -/
def trace (writer : Writer depth) : List Call → List (Reply × Writer depth)
  | [] => []
  | call :: rest =>
    let step := writer.call call
    if step.1.isFailure then [step] else step :: step.2.trace rest

/-- The writer that the last step of a trace leaves behind. -/
def afterAll (writer : Writer depth) (calls : List Call) : Writer depth :=
  (writer.trace calls).foldl (fun _ step => step.2) writer

/-- All adapters, topmost first. -/
def adapters : {depth : Nat} → Writer depth → List Adapter
  | _, base _ => []
  | _, layer adapter below => adapter :: below.adapters

/-- The topmost adapter, if there is one, is at the start of a line. -/
def AtLineStart (writer : Writer depth) : Prop :=
  ∀ adapter ∈ writer.adapter?, adapter.atLineStart = true

/-- Writers in which adapters were put on top at the start of a line, and through which all calls
went well so far. -/
inductive Raised : {depth : Nat} → Writer depth → Prop
  | base (sink : Sink) : Raised (base sink)
  | push {depth : Nat} {writer : Writer depth} (raised : Raised writer)
      (atStart : writer.AtLineStart) (width : Nat) : Raised (writer.push width)
  | pop {depth : Nat} {writer : Writer (depth + 1)} (raised : Raised writer) : Raised writer.pop
  | call {depth : Nat} {writer : Writer depth} (raised : Raised writer) (call : Call)
      (succeeded : (writer.call call).1.isFailure = false) : Raised (writer.call call).2

/-- A step of a stack and a step of a single adapter come to the same. -/
structure InStep (stacked : Reply × Writer depth) (alone : Reply × Writer 1) : Prop where
  reply_eq : stacked.1 = alone.1
  sink_eq : stacked.2.sink = alone.2.sink
  lineStart_eq : stacked.1.isFailure = false →
    ∀ adapter ∈ stacked.2.adapters, ∀ single ∈ alone.2.adapters,
      adapter.atLineStart = single.atLineStart

/-- An adapter takes all bytes of a call or comes to a halt, so both kinds of calls are one
write. -/
theorem call_eq (writer : Writer (depth + 1)) (call : Call) :
    writer.call call =
      (call.replyTo (writeAll (depth + 1) writer call.content).halt,
        (writeAll (depth + 1) writer call.content).state) := by
  cases call with
  | write content =>
      cases writer with
      | layer adapter below =>
          simp only [Writer.call, write, Call.content]
          cases (writeAll (depth + 1) (layer adapter below) content).halt <;> rfl
  | writeAll content => rfl

theorem adapters_aligned (widths : List Nat) (start : Bool) (sink : Sink) :
    (aligned widths start sink).adapters = widths.map fun width => ⟨width, start⟩ := by
  induction widths with
  | nil => rfl
  | cons width widths ih => simp [aligned, adapters, ih]

/-- A call on a stack is one write of its indented content to the sink. -/
theorem call_aligned (width : Nat) (widths : List Nat) (start : Bool) (sink : Sink)
    (call : Call) :
    let sent := sink.writeAll (Text.indented (width :: widths).sum start call.content)
    let step := (aligned (width :: widths) start sink).call call
    step.1 = call.replyTo sent.halt ∧ step.2.sink = sent.state ∧
      (sent.halt = none →
        step.2 = aligned (width :: widths) (Text.startAfter start call.content) sent.state) := by
  intro sent step
  have tracks := writeAll_tracks (width :: widths) start call.content sink
  have step_eq := call_eq (aligned (width :: widths) start sink) call
  simp only [step, step_eq]
  refine ⟨?_, tracks.below_eq, tracks.state_eq⟩
  exact congrArg call.replyTo tracks.halt_eq

theorem trace_cons_of_failure {writer : Writer depth} {call : Call}
    (failed : (writer.call call).1.isFailure = true) (rest : List Call) :
    writer.trace (call :: rest) = [writer.call call] := by
  simp [trace, failed]

theorem trace_cons_of_success {writer : Writer depth} {call : Call}
    (succeeded : (writer.call call).1.isFailure = false) (rest : List Call) :
    writer.trace (call :: rest) = writer.call call :: (writer.call call).2.trace rest := by
  simp [trace, succeeded]

theorem afterAll_cons_of_success {writer : Writer depth} {call : Call}
    (succeeded : (writer.call call).1.isFailure = false) (rest : List Call) :
    writer.afterAll (call :: rest) = (writer.call call).2.afterAll rest := by
  simp [afterAll, trace_cons_of_success succeeded]

/-- A stack stays in step with a single adapter of its total width. -/
theorem trace_aligned_inStep {width : Nat} {widths : List Nat} {total : Nat}
    (total_eq : (width :: widths).sum = total) (start : Bool) (sink : Sink) (calls : List Call) :
    List.Forall₂ InStep ((aligned (width :: widths) start sink).trace calls)
      ((aligned [total] start sink).trace calls) := by
  induction calls generalizing start sink with
  | nil => exact List.Forall₂.nil
  | cons call rest ih =>
      -- Both sides make the same write to the sink, so they come to the same halt or to none.
      have stacked := call_aligned width widths start sink call
      have alone := call_aligned total [] start sink call
      simp only [total_eq, List.sum_singleton] at stacked alone
      rcases stacked with ⟨reply_eq, sink_eq, state_eq⟩
      rcases alone with ⟨reply_eq', sink_eq', state_eq'⟩
      generalize sink.writeAll (Text.indented total start call.content) = sent at *
      have here : InStep ((aligned (width :: widths) start sink).call call)
          ((aligned [total] start sink).call call) := by
        refine ⟨reply_eq.trans reply_eq'.symm, sink_eq.trans sink_eq'.symm, ?_⟩
        intro succeeded
        have no_halt : sent.halt = none := by simpa [reply_eq] using succeeded
        simp [state_eq no_halt, state_eq' no_halt, adapters_aligned]
      cases halt_eq : sent.halt with
      | none =>
          rw [trace_cons_of_success (by simp [reply_eq, halt_eq]),
            trace_cons_of_success (by simp [reply_eq', halt_eq])]
          apply List.Forall₂.cons here
          rw [state_eq halt_eq, state_eq' halt_eq]
          apply ih
      | some halt =>
          rw [trace_cons_of_failure (by simp [reply_eq, halt_eq]),
            trace_cons_of_failure (by simp [reply_eq', halt_eq])]
          exact List.Forall₂.cons here List.Forall₂.nil

theorem writeAll_accepting (widths : List Nat) (start : Bool) {sink : Sink}
    (accepting : sink.capacity = none) (content : List UInt8) :
    writeAll widths.length (aligned widths start sink) content =
      .done (aligned widths (Text.startAfter start content)
        (sink.hold (Text.indented widths.sum start content))) := by
  have tracks := writeAll_tracks widths start content sink
  rw [Sink.writeAll_of_le (by simp [accepting])] at tracks
  exact tracks.eq_done

theorem call_accepting (width : Nat) (widths : List Nat) (start : Bool) {sink : Sink}
    (accepting : sink.capacity = none) (call : Call) :
    (aligned (width :: widths) start sink).call call =
      (call.fullReply, aligned (width :: widths) (Text.startAfter start call.content)
        (sink.hold (Text.indented (width :: widths).sum start call.content))) := by
  have written : writeAll (widths.length + 1) (aligned (width :: widths) start sink) call.content =
      _ := writeAll_accepting (width :: widths) start accepting call.content
  have step_eq := call_eq (aligned (width :: widths) start sink) call
  rw [written] at step_eq
  exact step_eq

/-- Over a sink that takes everything, calls come to the same as one call with all their bytes. -/
theorem calls_accepting (width : Nat) (widths : List Nat) (start : Bool) {sink : Sink}
    (accepting : sink.capacity = none) (calls : List Call) :
    let content := calls.flatMap Call.content
    let writer := aligned (width :: widths) start sink
    (writer.trace calls).map Prod.fst = calls.map Call.fullReply ∧
      writer.afterAll calls = aligned (width :: widths) (Text.startAfter start content)
        (sink.hold (Text.indented (width :: widths).sum start content)) := by
  induction calls generalizing start sink with
  | nil => simp [trace, afterAll]
  | cons call rest ih =>
      have step_eq := call_accepting width widths start accepting call
      have succeeded : ((aligned (width :: widths) start sink).call call).1.isFailure = false := by
        rw [step_eq]
        exact call.isFailure_replyTo none
      have still_accepting :
          (sink.hold (Text.indented (width :: widths).sum start call.content)).capacity = none := by
        simp [Sink.capacity_hold, accepting]
      rcases ih (Text.startAfter start call.content) still_accepting with ⟨replies_eq, after_eq⟩
      simp only [trace_cons_of_success succeeded, afterAll_cons_of_success succeeded, step_eq,
        List.map_cons, List.flatMap_cons, replies_eq, after_eq, Text.startAfter_append,
        Text.indented_append, Sink.hold_hold, and_self]

/-- However bytes are cut into calls, an adapter over a sink that takes everything takes them all
and puts its indentation before each line that is not empty. Taking it off again gives the bytes
back. -/
theorem calls_pad_lines (width : Nat) (sink : Sink) (unlimited : sink.limit = none)
    (progress : sink.chunk ≠ some 0) (content : List UInt8) (calls : List Call)
    (cut : calls.flatMap Call.content = content) :
    let writer := (base sink).push width
    let received := Text.padLines Text.newline (List.replicate width Text.space) content
    (writer.trace calls).map Prod.fst = calls.map Call.fullReply ∧
      (writer.afterAll calls).sink = { sink with written := sink.written ++ received } ∧
      Text.stripLines Text.newline width received = content := by
  intro writer received
  have accepting := Sink.capacity_of_unlimited unlimited progress
  rcases calls_accepting width [] true accepting calls with ⟨replies_eq, after_eq⟩
  refine ⟨replies_eq, ?_, ?_⟩
  · have after_sink := congrArg Writer.sink after_eq
    rw [sink_aligned, List.sum_singleton, cut, Text.indented_eq_padLines] at after_sink
    exact after_sink
  · have visible : Text.newline ∉ List.replicate width Text.space := by
      simp [List.mem_replicate, Text.newline, Text.space]
    have stripped := Text.stripLines_padLines visible content
    rwa [List.length_replicate] at stripped

/-- An empty piece, a cut inside the encoding of a letter, and a line that is still open at the
end. -/
theorem calls_pad_lines_cut :
    let writer := (base { chunk := some 1 }).push 2
    let calls : List Call := [.write [], .writeAll [0xC3], .write [0xA9, 0x0A, 0x0A], .write [0x62]]
    let received : List UInt8 := [0x20, 0x20, 0xC3, 0xA9, 0x0A, 0x0A, 0x20, 0x20, 0x62]
    (writer.trace calls).map Prod.fst = [.took 0, .finished, .took 3, .took 1] ∧
      (writer.afterAll calls).sink.written = received.toArray ∧
      Text.stripLines Text.newline 2 received = [0xC3, 0xA9, 0x0A, 0x0A, 0x62] := by
  intro writer calls received
  have padded := calls_pad_lines 2 { chunk := some 1 } rfl (by decide)
    [0xC3, 0xA9, 0x0A, 0x0A, 0x62] calls rfl
  have received_eq : Text.padLines Text.newline (List.replicate 2 Text.space)
      [0xC3, 0xA9, 0x0A, 0x0A, 0x62] = received := by decide
  rw [received_eq] at padded
  exact ⟨padded.1, by rw [padded.2.1]; rfl, padded.2.2⟩

/-- A writer whose adapters agree is built from their widths. -/
theorem exists_aligned {writer : Writer depth} {start : Bool}
    (level : ∀ adapter ∈ writer.adapters, adapter.atLineStart = start) :
    ∃ (widths : List Nat) (length_eq : widths.length = depth),
      writer = length_eq ▸ aligned widths start writer.sink := by
  induction writer with
  | base sink => exact ⟨[], rfl, rfl⟩
  | layer adapter below ih =>
      simp only [adapters, List.forall_mem_cons] at level
      rcases ih level.2 with ⟨widths, rfl, below_eq⟩
      refine ⟨adapter.width :: widths, rfl, ?_⟩
      rcases adapter with ⟨width, atLineStart⟩
      simp only at level
      rw [level.1]
      exact congrArg (layer ⟨width, start⟩) below_eq

theorem atLineStart_base (sink : Sink) : (base sink).AtLineStart := by
  simp [AtLineStart, adapter?]

theorem atLineStart_push (writer : Writer depth) (width : Nat) :
    (writer.push width).AtLineStart := by
  simp [AtLineStart, adapter?, Writer.push]

theorem AtLineStart.all {writer : Writer depth} (atStart : writer.AtLineStart)
    (level : ∃ start, ∀ adapter ∈ writer.adapters, adapter.atLineStart = start) :
    ∀ adapter ∈ writer.adapters, adapter.atLineStart = true := by
  rcases level with ⟨start, level⟩
  cases writer with
  | base sink => simp [adapters]
  | layer top below =>
      intro adapter adapter_mem
      rw [level adapter adapter_mem, ← level top List.mem_cons_self]
      exact atStart top rfl

/-- The adapters of a raised writer agree about where they are. -/
theorem Raised.level {writer : Writer depth} (raised : writer.Raised) :
    ∃ start, ∀ adapter ∈ writer.adapters, adapter.atLineStart = start := by
  induction raised with
  | base sink => exact ⟨true, by simp [adapters]⟩
  | @push depth writer _ atStart width ih =>
      refine ⟨true, ?_⟩
      simpa [Writer.push, adapters] using atStart.all ih
  | @pop depth writer _ ih =>
      rcases ih with ⟨start, level⟩
      cases writer with
      | layer adapter below =>
          refine ⟨start, ?_⟩
          intro other other_mem
          exact level other (List.mem_cons_of_mem _ other_mem)
  | @call depth writer _ call succeeded ih =>
      rcases ih with ⟨start, level⟩
      rcases exists_aligned level with ⟨widths, rfl, writer_eq⟩
      simp only at writer_eq
      rw [writer_eq] at succeeded ⊢
      cases widths with
      | nil =>
          cases bare : ((aligned [] start writer.sink).call call).2 with
          | base sink => exact ⟨start, by simp [adapters]⟩
      | cons width widths =>
          rcases call_aligned width widths start writer.sink call with ⟨reply_eq, -, state_eq⟩
          refine ⟨Text.startAfter start call.content, ?_⟩
          rw [state_eq (by simpa [reply_eq] using succeeded)]
          simp [adapters_aligned]

/-- Nested adapters add up. From the start of a line on, a stack of adapters and a single new
adapter of their total width give the same replies and bring the same bytes to the sink in every
call, and after every call that goes well they all agree on whether they are at the start of a
line. -/
theorem nested_adapters_add_up (stack : Writer (depth + 1)) (raised : stack.Raised)
    (atStart : stack.AtLineStart) (calls : List Call) :
    List.Forall₂ InStep (stack.trace calls)
      (((base stack.sink).push (stack.adapters.map Adapter.width).sum).trace calls) := by
  have level := atStart.all raised.level
  rcases exists_aligned level with ⟨_ | ⟨width, widths⟩, length_eq, stack_eq⟩
  · cases length_eq
  · obtain rfl : widths.length = depth := Nat.succ.inj length_eq
    simp only at stack_eq
    have widths_eq : stack.adapters.map Adapter.width = width :: widths := by
      rw [stack_eq]
      simp [adapters_aligned, Function.comp_def]
    rw [widths_eq]
    nth_rewrite 1 [stack_eq]
    exact trace_aligned_inStep rfl true stack.sink calls

/-- A line through the lowest adapter, two more on top of it, one of no width, and a sink that is
full inside the second indentation of all three. -/
theorem nested_adapters_add_up_torn :
    let lowest := (base { limit := some 14, chunk := some 4 }).push 2
    let stack := ((lowest.call (.writeAll [0x78, 0x0A])).2.push 0).push 3
    let alone := (base stack.sink).push 5
    let calls : List Call := [.write [0x61, 0x0A], .write [0x62]]
    List.Forall₂ InStep (stack.trace calls) (alone.trace calls) ∧
      (alone.trace calls).map Prod.fst = [.took 2, .failed .full] := by
  intro lowest stack alone calls
  have line_raised : (lowest.call (.writeAll [0x78, 0x0A])).2.Raised := by
    apply Raised.call
    · exact (Raised.base _).push (atLineStart_base _) 2
    · decide +kernel
  have line_start : (lowest.call (.writeAll [0x78, 0x0A])).2.AtLineStart := by
    unfold AtLineStart
    decide +kernel
  have raised : stack.Raised := (line_raised.push line_start 0).push (atLineStart_push _ 0) 3
  have widths_eq : (stack.adapters.map Adapter.width).sum = 5 := by decide +kernel
  have inStep := nested_adapters_add_up stack raised (atLineStart_push _ 3) calls
  rw [widths_eq] at inStep
  exact ⟨inStep, by decide +kernel⟩

end Writer

end ProtoSchema
