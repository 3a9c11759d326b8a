import ProtoSchema.Text.Bytes

/-!
# Sinks

A sink is where output ends up. It collects bytes, may take only a few of them per call, and may
have a limit in all; a full sink refuses further bytes in one of several ways. An `Outcome` is what
a chain of writes leaves behind: the state reached, and what the chain came to a halt by, if it did.
The state survives a halt, because what was written before stays written.

Most errors end a write. An interruption does not: it says that the call may be made again, and
whoever writes all of some bytes makes it again. A sink that answers every further call with an
interruption is therefore never done with, and this is a halt of its own, `Halt.endless`.
-/

namespace ProtoSchema

/-- The kinds of error that a call comes back with. -/
inductive WriteError.Kind
  /-- Bytes were left over that nobody took. -/
  | writeZero
  /-- Nobody takes the bytes any more. -/
  | brokenPipe
  /-- The call was interrupted and took no byte. This kind alone does not end the writing of all
  bytes: the call is made again. -/
  | interrupted
  /-- Anything else, which ends a write like the first two kinds. -/
  | other
  deriving DecidableEq, Repr, Inhabited

/-- Why a call or a flush failed. A sink is free in the text of its errors. -/
structure WriteError where
  kind : WriteError.Kind
  message : String
  deriving DecidableEq, Repr, Inhabited

/-- What a chain of writes comes to a halt by. -/
inductive Halt
  /-- A call failed, and its error is passed on. -/
  | failed (error : WriteError)
  /-- A call is made again and again, since it is interrupted every time. Nothing is passed on, as
  the chain never comes back. -/
  | endless
  deriving DecidableEq, Repr, Inhabited

namespace WriteError

/-- What writing all bytes comes to a halt by if every further call fails with the error. -/
def halt (error : WriteError) : Halt :=
  if error.kind = .interrupted then .endless else .failed error

/-- The sink has no room left. -/
def full : WriteError := ⟨.writeZero, "sink full"⟩

/-- The sink took no byte although there were some to write. -/
def incomplete : WriteError := ⟨.writeZero, "failed to write whole buffer"⟩

/-- The sink could not flush. -/
def flushFailed : WriteError := ⟨.brokenPipe, "flush failed"⟩

end WriteError

/-- The state after some writes, and what brought them to a halt. -/
structure Outcome (State : Type) where
  state : State
  halt : Option Halt
  deriving DecidableEq, Repr

namespace Outcome

variable {State Other : Type}

/-- Everything was written. -/
def done (state : State) : Outcome State :=
  ⟨state, none⟩

/-- A write came to a halt and left a state behind. -/
def halted (halt : Halt) (state : State) : Outcome State :=
  ⟨state, some halt⟩

/-- Go on with the state reached, unless there was a halt. -/
def andThen (outcome : Outcome State) (next : State → Outcome State) : Outcome State :=
  match outcome.halt with
  | none => next outcome.state
  | some _ => outcome

/-- The outcome seen through a function of its state. -/
def map (view : State → Other) (outcome : Outcome State) : Outcome Other :=
  ⟨view outcome.state, outcome.halt⟩

@[simp]
theorem andThen_done (state : State) (next : State → Outcome State) :
    (done state).andThen next = next state := rfl

@[simp]
theorem andThen_halted (halt : Halt) (state : State) (next : State → Outcome State) :
    (halted halt state).andThen next = halted halt state := rfl

@[simp]
theorem map_done (view : State → Other) (state : State) :
    (done state).map view = done (view state) := rfl

@[simp]
theorem map_halted (view : State → Other) (halt : Halt) (state : State) :
    (halted halt state).map view = halted halt (view state) := rfl

end Outcome

/-- What a full sink does with further bytes. -/
inductive Refusal
  /-- Fails with an error of its own. -/
  | fail (error : WriteError)
  /-- Takes no byte and does not fail. -/
  | stall
  deriving DecidableEq, Repr, Inhabited

/-- The error of a single call on a full sink. -/
def Refusal.error? : Refusal → Option WriteError
  | fail error => some error
  | stall => none

/-- A destination of bytes. -/
structure Sink where
  /-- All bytes taken so far. -/
  written : Array UInt8 := #[]
  /-- How many bytes it takes in all. -/
  limit : Option Nat := none
  /-- How many bytes it takes per call. -/
  chunk : Option Nat := none
  /-- What it does once the limit is reached. -/
  refusal : Refusal := .fail .full
  /-- Whether it fails to flush. -/
  flushFails : Bool := false
  /-- How often it was flushed. -/
  flushes : Nat := 0
  deriving DecidableEq, Repr, Inhabited

namespace Sink

/-- A number cut down to a bound, where there is one. -/
def atMost (bound : Option Nat) (count : Nat) : Nat :=
  match bound with
  | none => count
  | some bound => min count bound

/-- How many bytes the sink still takes in all. -/
def room (sink : Sink) : Option Nat :=
  sink.limit.map (· - sink.written.size)

/-- How many bytes one call takes when it is offered `count` of them. -/
def accepted (sink : Sink) (count : Nat) : Nat :=
  atMost sink.room (atMost sink.chunk count)

/-- One call: the number of bytes taken from the front of `content`. -/
def write (sink : Sink) (content : List UInt8) : Except WriteError Nat × Sink :=
  if sink.room = some 0 then
    match sink.refusal.error? with
    | some error => (.error error, sink)
    | none => (.ok 0, sink)
  else
    let count := sink.accepted content.length
    (.ok count, { sink with written := sink.written ++ content.take count })

/-- Calls `write` until all of `content` is taken. Nothing to write needs no call, and a call that
takes no byte is a failure. An interrupted call is made again; since the sink is as it was, it is
interrupted again, and there is no end to it. -/
def writeAll (sink : Sink) (content : List UInt8) : Outcome Sink :=
  if content = [] then
    .done sink
  else
    match sink.write content with
    | (.error error, sink) => .halted error.halt sink
    | (.ok 0, sink) => .halted (.failed .incomplete) sink
    | (.ok (more + 1), sink) => sink.writeAll (content.drop (more + 1))
termination_by content.length
decreasing_by
  have : content.length ≠ 0 := by simp_all
  simp only [List.length_drop]
  omega

/-- Asks the sink to pass on what it took. -/
def flush (sink : Sink) : Outcome Sink :=
  if sink.flushFails then
    .halted (.failed .flushFailed) sink
  else
    .done { sink with flushes := sink.flushes + 1 }

@[simp]
theorem writeAll_nil (sink : Sink) : sink.writeAll [] = .done sink := by
  rw [writeAll]
  simp

end Sink

end ProtoSchema
