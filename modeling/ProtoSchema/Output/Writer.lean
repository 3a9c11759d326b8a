import ProtoSchema.Output.Sink

/-!
# Writers

A writer is a sink below a stack of indenting adapters. An adapter puts its indentation before the
first byte of each line, unless that byte is the newline itself, so an empty line stays empty and a
line that arrives in pieces is indented once. It hands on what it gets line by line, and it knows
whether it stands at the start of a line; a halt below leaves that knowledge as it was before the
step that came to it.

`Writer depth` is the type of writers with `depth` adapters, and every operation on a writer is by
recursion on that number. What one adapter does is stated for any destination below it.
-/

namespace ProtoSchema

/-- An indenting adapter: its width, and whether the next byte starts a line. -/
structure Adapter where
  width : Nat
  atLineStart : Bool := true
  deriving DecidableEq, Repr, Inhabited

namespace Adapter

variable {State : Type}

/-- The bytes put before a line. -/
def indentation (adapter : Adapter) : List UInt8 :=
  List.replicate adapter.width Text.space

/-- The pieces in which an adapter hands on bytes: each ends at a newline, except perhaps the
last. -/
def runs : List UInt8 → List (List UInt8)
  | [] => []
  | byte :: rest =>
    if byte = Text.newline then
      [byte] :: runs rest
    else
      match runs rest with
      | [] => [[byte]]
      | run :: more => (byte :: run) :: more

/-- Indents the line that a run starts, if it starts a line that is not empty. -/
def startLine (send : State → List UInt8 → Outcome State) (run : List UInt8)
    (adapter : Adapter) (below : State) : Outcome (Adapter × State) :=
  if adapter.atLineStart && run.head? != some Text.newline then
    let sent := send below adapter.indentation
    -- A line whose indentation did not get through has not begun.
    ⟨({ adapter with atLineStart := sent.halt.isSome }, sent.state), sent.halt⟩
  else
    .done (adapter, below)

/-- Hands on one run. The adapter is at the start of a line again once a newline got through. -/
def passRun (send : State → List UInt8 → Outcome State) (run : List UInt8)
    (state : Adapter × State) : Outcome (Adapter × State) :=
  (startLine send run state.1 state.2).andThen fun (adapter, below) =>
    let sent := send below run
    -- A run holds no newline but at its end, so all of it belongs to one line.
    let ended := sent.halt.isNone && run.getLast? == some Text.newline
    ⟨({ adapter with atLineStart := adapter.atLineStart || ended }, sent.state), sent.halt⟩

/-- Hands on several runs, up to the first halt. -/
def passRuns (send : State → List UInt8 → Outcome State) :
    List (List UInt8) → Adapter × State → Outcome (Adapter × State)
  | [], state => .done state
  | run :: rest, state => (passRun send run state).andThen (passRuns send rest)

/-- Hands on bytes to the destination below. -/
def pass (send : State → List UInt8 → Outcome State) (content : List UInt8)
    (state : Adapter × State) : Outcome (Adapter × State) :=
  passRuns send (runs content) state

end Adapter

/-- A sink below `depth` adapters. -/
inductive Writer : Nat → Type
  | base (sink : Sink) : Writer 0
  | layer {depth : Nat} (adapter : Adapter) (below : Writer depth) : Writer (depth + 1)

namespace Writer

/-- The sink below all adapters. -/
def sink : {depth : Nat} → Writer depth → Sink
  | _, base sink => sink
  | _, layer _ below => below.sink

/-- The writer over another sink. -/
def withSink (sink : Sink) : {depth : Nat} → Writer depth → Writer depth
  | _, base _ => base sink
  | _, layer adapter below => layer adapter (below.withSink sink)

/-- The writer below one more adapter, which stands at the start of a line. -/
def push {depth : Nat} (writer : Writer depth) (width : Nat) : Writer (depth + 1) :=
  layer ⟨width, true⟩ writer

/-- The writer without its topmost adapter. -/
def pop {depth : Nat} : Writer (depth + 1) → Writer depth
  | layer _ below => below

/-- The topmost adapter, if there is one. -/
def adapter? : {depth : Nat} → Writer depth → Option Adapter
  | _, base _ => none
  | _, layer adapter _ => some adapter

/-- Writes all bytes, each adapter passing them to the one below it. -/
def writeAll : (depth : Nat) → Writer depth → List UInt8 → Outcome (Writer depth)
  | 0, base sink, content => (sink.writeAll content).map base
  | depth + 1, layer adapter below, content =>
    (Adapter.pass (writeAll depth) content (adapter, below)).map fun (adapter, below) =>
      layer adapter below

/-- One call: the number of bytes taken. A sink answers it at once, even if only that it was
interrupted. An adapter takes all or comes to a halt. -/
def write : {depth : Nat} → Writer depth → List UInt8 → Except Halt Nat × Writer depth
  | _, base sink, content =>
    let (result, sink) := sink.write content
    (result.mapError .failed, base sink)
  | _, layer adapter below, content =>
    let outcome := writeAll _ (layer adapter below) content
    match outcome.halt with
    | some halt => (.error halt, outcome.state)
    | none => (.ok content.length, outcome.state)

/-- Flushes the sink. Adapters hold nothing back, so there is nothing else to pass on. -/
def flush {depth : Nat} (writer : Writer depth) : Outcome (Writer depth) :=
  writer.sink.flush.map (fun sink => writer.withSink sink)

@[simp]
theorem pop_push {depth : Nat} (writer : Writer depth) (width : Nat) :
    (writer.push width).pop = writer := rfl

@[simp]
theorem sink_push {depth : Nat} (writer : Writer depth) (width : Nat) :
    (writer.push width).sink = writer.sink := rfl

end Writer

end ProtoSchema
