import ProtoSchema.Proofs.Output.Calls
import ProtoSchema.Proofs.Printing.Refinement
import ProtoSchema.Proofs.Text.LossyDecoding

/-!
# Valid output

Adapters work on bytes. They look for the newline byte and put spaces between bytes, and they may
get a character in two halves. What comes out is valid UTF-8 all the same, if what goes in is valid
as a whole: `printed_output_valid` says so of everything that is printed and of every stack of
adapters.

The reason is that the newline byte occurs in no encoded character but the newline, so that spaces
only ever stand before a whole character, `Text.exists_bytes_indented`. A stack need not be in any
particular state for this. Its adapters may disagree about where they are, and then each of them
indents what the one above it hands on from its own state: `Writer.delivered`.
-/

namespace ProtoSchema

namespace Text

theorem decode?_eq_some_iff {content : List UInt8} {text : String} :
    decode? content = some text ↔ content = bytes text := by
  have encoded : (bytes text).toByteArray = text.toByteArray := by
    rw [bytes, ← List.utf8Encode, ← String.toByteArray_ofList, String.ofList_toList]
  constructor
  · intro decoded
    rw [decode?, String.fromUTF8?] at decoded
    split at decoded
    · cases decoded
      apply List.toByteArray_inj.mp
      rw [encoded]
      rfl
    · cases decoded
  · rintro rfl
    have valid : (bytes text).toByteArray.IsValidUTF8 := ⟨text.toList, rfl⟩
    rw [decode?, String.fromUTF8?, dif_pos valid, Option.some.injEq]
    apply String.toByteArray_inj.mp
    exact encoded

theorem isSome_decode?_iff {content : List UInt8} :
    (decode? content).isSome = true ↔ ∃ text, content = bytes text := by
  simp only [Option.isSome_iff_exists, decode?_eq_some_iff]

/-- Bytes without a newline are indented once, before the first of them. -/
theorem indented_visible {word : List UInt8} (nonempty : word ≠ []) (visible : newline ∉ word)
    (width : Nat) (start : Bool) (rest : List UInt8) :
    indented width start (word ++ rest) =
      (if start then List.replicate width space else []) ++ word ++ indented width false rest := by
  induction word generalizing start with
  | nil => exact absurd rfl nonempty
  | cons byte word ih =>
      simp only [List.mem_cons, not_or] at visible
      have not_newline : (byte == newline) = false := by simpa using Ne.symm visible.1
      have inside : indented width false (word ++ rest) = word ++ indented width false rest := by
        by_cases last : word = []
        · simp [last]
        · simpa using ih last visible.2 false
      simp [indented, bne, not_newline, inside]

/-- Indentation goes between characters, so it keeps an encoded text one. -/
theorem exists_bytes_indented (width : Nat) (start : Bool) (text : String) :
    ∃ padded, indented width start (bytes text) = bytes padded := by
  suffices ∀ chars : List Char, ∃ padded : List Char,
      indented width start (chars.flatMap String.utf8EncodeChar) =
        padded.flatMap String.utf8EncodeChar by
    rcases this text.toList with ⟨padded, padded_eq⟩
    exact ⟨String.ofList padded, by simpa [bytes] using padded_eq⟩
  intro chars
  induction chars generalizing start with
  | nil => exact ⟨[], rfl⟩
  | cons char rest ih =>
      by_cases is_newline : char = '\n'
      · subst is_newline
        rcases ih true with ⟨padded, padded_eq⟩
        refine ⟨'\n' :: padded, ?_⟩
        have encoded : String.utf8EncodeChar '\n' = [newline] := by decide
        simp [encoded, indented, padded_eq]
      · rcases ih false with ⟨padded, padded_eq⟩
        have encoded : String.utf8EncodeChar ' ' = [space] := by decide
        have step := indented_visible String.utf8EncodeChar_ne_nil
          (newline_notMem_utf8EncodeChar is_newline) width start
          (rest.flatMap String.utf8EncodeChar)
        refine ⟨(if start then List.replicate width ' ' else []) ++ char :: padded, ?_⟩
        rw [List.flatMap_cons, step, padded_eq]
        cases start <;> simp [List.flatMap_replicate, encoded]

end Text

namespace Writer

variable {depth : Nat}

/-- What the sink gets of a content: each adapter indents it from its own state on. -/
def delivered : {depth : Nat} → Writer depth → List UInt8 → List UInt8
  | _, base _, content => content
  | _, layer adapter below, content =>
    below.delivered (Text.indented adapter.width adapter.atLineStart content)

theorem exists_bytes_delivered (writer : Writer depth) (text : String) :
    ∃ received, writer.delivered (Text.bytes text) = Text.bytes received := by
  induction writer generalizing text with
  | base sink => exact ⟨text, rfl⟩
  | layer adapter below ih =>
      rcases Text.exists_bytes_indented adapter.width adapter.atLineStart text with
        ⟨padded, padded_eq⟩
      rcases ih padded with ⟨received, received_eq⟩
      exact ⟨received, by rw [delivered, padded_eq, received_eq]⟩

/-- Whatever the state of its adapters, a stack over a sink that takes everything brings all of a
content to the sink. -/
theorem writeAll_delivers {writer : Writer depth} (accepting : writer.sink.capacity = none)
    (content : List UInt8) :
    ∃ after, writeAll depth writer content = .done after ∧
      after.sink = writer.sink.hold (writer.delivered content) := by
  induction writer generalizing content with
  | base sink =>
      have fits : ∀ room ∈ sink.capacity, content.length ≤ room := by
        intro room room_mem
        rw [show sink.capacity = none from accepting] at room_mem
        cases room_mem
      refine ⟨base (sink.hold content), ?_, rfl⟩
      rw [writeAll, Sink.writeAll_of_le fits]
      rfl
  | @layer depth adapter below ih =>
      rcases adapter with ⟨width, start⟩
      rcases ih accepting (Text.indented width start content) with ⟨after, done, after_sink⟩
      have tracks := Adapter.pass_tracks (writeAll_sequential depth) width start content below
      rw [done] at tracks
      refine ⟨layer ⟨width, Text.startAfter start content⟩ after, ?_, after_sink⟩
      rw [writeAll, tracks.eq_done]
      rfl

/-- However a content is cut into calls, they all go well and come to one write of it. -/
theorem calls_deliver {writer : Writer (depth + 1)} (accepting : writer.sink.capacity = none)
    (calls : List Call) :
    (writer.trace calls).map Prod.fst = calls.map Call.fullReply ∧
      writeAll (depth + 1) writer (calls.flatMap Call.content) = .done (writer.afterAll calls) := by
  have sequential := writeAll_sequential (depth + 1)
  induction calls generalizing writer with
  | nil => exact ⟨rfl, sequential.send_nil writer⟩
  | cons call rest ih =>
      rcases writeAll_delivers accepting call.content with ⟨after, done, after_sink⟩
      have step_eq : writer.call call = (call.fullReply, after) := by
        rw [call_eq, done]
        rfl
      have succeeded : (writer.call call).1.isFailure = false := by
        rw [step_eq]
        exact call.isFailure_replyTo none
      have still_accepting : after.sink.capacity = none := by
        rw [after_sink, Sink.capacity_hold, accepting]
        rfl
      rcases ih still_accepting with ⟨replies_eq, written⟩
      rw [trace_cons_of_success succeeded, afterAll_cons_of_success succeeded, step_eq]
      refine ⟨?_, ?_⟩
      · simp only [List.map_cons, replies_eq]
      · rw [List.flatMap_cons, sequential.send_append, done]
        exact written

end Writer

/-- What is printed of a node is its flat text. -/
theorem Node.print_eq_flatText (node : Node) : node.print = node.flatText 2 := by
  rw [Node.print, rendering_some, Text.decodeLossy_bytes]
  rfl

/-- Over a sink that takes everything, what is printed is valid UTF-8 under every configuration,
and under the default one it is the encoding of the printed form, which reading it leniently has
left as it is. A stack of adapters that gets a valid text in whatever pieces takes all of them and
brings valid UTF-8 to the sink. -/
theorem printed_output_valid (sink : Sink) (unlimited : sink.limit = none)
    (progress : sink.chunk ≠ some 0) :
    (∀ (config : Config) (node : Node), ∃ output : List UInt8,
      printTo config (some node) sink = .done { sink with written := sink.written ++ output } ∧
        (Text.decode? output).isSome = true ∧
        (config = {} → output = Text.bytes node.print ∧ Text.decode? output = some node.print)) ∧
    (∀ (depth : Nat) (stack : Writer (depth + 1)) (calls : List Call), stack.sink = sink →
      (Text.decode? (calls.flatMap Call.content)).isSome = true →
      ∃ output : List UInt8, (stack.trace calls).map Prod.fst = calls.map Call.fullReply ∧
        (stack.afterAll calls).sink = { sink with written := sink.written ++ output } ∧
        (Text.decode? output).isSome = true) := by
  have accepting := Sink.capacity_of_unlimited unlimited progress
  constructor
  · intro config node
    have printed : printTo config (some node) sink =
        .done (sink.hold (Text.bytes (node.flatText config.indent.toNat))) := by
      rw [printTo_eq_writeAll, Sink.writeAll_of_le (by simp [accepting])]
    refine ⟨_, printed, ?_, ?_⟩
    · exact Text.isSome_decode?_iff.mpr ⟨_, rfl⟩
    · rintro rfl
      have output_eq : Text.bytes (node.flatText 2) = Text.bytes node.print := by
        rw [node.print_eq_flatText]
      exact ⟨output_eq, Text.decode?_eq_some_iff.mpr output_eq⟩
  · rintro depth stack calls rfl valid
    rcases Text.isSome_decode?_iff.mp valid with ⟨text, content_eq⟩
    rcases stack.exists_bytes_delivered text with ⟨received, received_eq⟩
    rcases Writer.calls_deliver accepting calls with ⟨replies_eq, written⟩
    rcases Writer.writeAll_delivers accepting (calls.flatMap Call.content) with
      ⟨after, done, after_sink⟩
    rw [written] at done
    cases done
    rw [content_eq, received_eq] at after_sink
    exact ⟨Text.bytes received, replies_eq, after_sink, Text.isSome_decode?_iff.mpr ⟨_, rfl⟩⟩

/-- A name that breaks a line before a character of four bytes goes out byte by byte. The lower
adapter is inside a line when the upper one is put on top of it, and the same character comes in
three pieces. -/
theorem printed_output_valid_torn :
    let sink : Sink := { chunk := some 1 }
    let message : Message := ⟨"a\n😀", {}, [], [], [], []⟩
    let stack := (Writer.layer ⟨1, false⟩ (.base sink)).push 2
    let calls : List Call := [.write [0x62, 0x0A, 0xF0, 0x9F], .writeAll [0x98], .write [0x80]]
    let received : List UInt8 :=
      [0x20, 0x20, 0x62, 0x0A, 0x20, 0x20, 0x20, 0xF0, 0x9F, 0x98, 0x80]
    (∃ output : List UInt8, printTo ⟨3⟩ (some (.message message)) sink =
        .done { sink with written := sink.written ++ output } ∧
        (Text.decode? output).isSome = true) ∧
      (stack.afterAll calls).sink.written = received.toArray ∧
      (Text.decode? received).isSome = true := by
  intro sink message stack calls received
  have valid := printed_output_valid sink rfl (by decide)
  constructor
  · rcases valid.1 ⟨3⟩ (.message message) with ⟨output, printed, output_valid, -⟩
    exact ⟨output, printed, output_valid⟩
  · rcases valid.2 1 stack calls rfl (by decide +kernel) with ⟨output, -, sink_eq, output_valid⟩
    have written_eq : (stack.afterAll calls).sink.written = received.toArray := by decide +kernel
    refine ⟨written_eq, ?_⟩
    rw [sink_eq] at written_eq
    have output_eq : output = received := by simpa [sink] using written_eq
    rwa [output_eq] at output_valid

end ProtoSchema
