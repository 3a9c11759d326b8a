import Mathlib.Algebra.GroupWithZero.Nat
import ProtoSchema.Output.Writer
import ProtoSchema.Proofs.Output.Capacity

/-!
# Stacks of indenting adapters

A stack of adapters above a sink does what one write to the sink does: the content, indented by the
sum of all widths, goes to the sink. This holds up to and including the first halt, for any sink.

The proof has two parts. First, adapters do not care how a content is cut into writes: whatever
stands below an adapter, if it is `Sequential` then so is the adapter, and therefore every stack.
This reduces a write to writes of single bytes. Second, a write through an adapter is followed byte
by byte against the write below it. The relation between the two is `Outcome.Tracks`: same halt,
same state below, and, unless there was a halt, a known state above. It composes along successive
writes as well as from one layer to the next.

The layers of a stack agree on whether they are at the start of a line as long as there was no halt;
`Writer.aligned` builds the stacks in such a state. They need not agree after a halt, which may
strike between the indentation of one layer and that of the next.
-/

namespace ProtoSchema

namespace Text

/-- The content with `width` spaces before each line that is not empty, where `start` says whether
the content begins at the start of a line. -/
def indented (width : Nat) : (start : Bool) → List UInt8 → List UInt8
  | _, [] => []
  | start, byte :: rest =>
    (if start && byte != newline then List.replicate width space else []) ++
      byte :: indented width (byte == newline) rest

/-- Whether what follows the content begins at the start of a line. -/
def startAfter : (start : Bool) → List UInt8 → Bool
  | start, [] => start
  | _, byte :: rest => startAfter (byte == newline) rest

@[simp]
theorem indented_nil (width : Nat) (start : Bool) : indented width start [] = [] := rfl

@[simp]
theorem startAfter_nil (start : Bool) : startAfter start [] = start := rfl

theorem indented_append (width : Nat) (start : Bool) (first second : List UInt8) :
    indented width start (first ++ second) =
      indented width start first ++ indented width (startAfter start first) second := by
  induction first generalizing start with
  | nil => rfl
  | cons byte rest ih => simp [indented, startAfter, ih]

theorem startAfter_append (start : Bool) (first second : List UInt8) :
    startAfter start (first ++ second) = startAfter (startAfter start first) second := by
  induction first generalizing start with
  | nil => rfl
  | cons byte rest ih => simp [startAfter, ih]

theorem indented_spaces (width count : Nat) (content : List UInt8) :
    indented width false (List.replicate count space ++ content) =
      List.replicate count space ++ indented width false content := by
  induction count with
  | zero => rfl
  | succ count ih =>
      have not_newline : (space == newline) = false := by decide
      simp [List.replicate_succ, indented, not_newline, ih]

/-- An outer indentation comes before an inner one, once per line. -/
theorem indented_line (outer inner : Nat) {byte : UInt8} (visible : (byte != newline) = true)
    (rest : List UInt8) :
    indented outer true (List.replicate inner space ++ byte :: rest) =
      List.replicate (outer + inner) space ++ byte :: indented outer false rest := by
  have not_newline : (byte == newline) = false := by simpa using visible
  cases inner with
  | zero => simp [indented, visible, not_newline]
  | succ inner =>
      have space_visible : (space != newline) = true := by decide
      have space_not_newline : (space == newline) = false := by decide
      simp only [List.replicate_succ, List.cons_append, indented, space_visible, Bool.and_self,
        if_true, space_not_newline, indented_spaces, Bool.false_and, Bool.false_eq_true, if_false,
        List.nil_append, not_newline]
      rw [← List.replicate_append_replicate, List.append_assoc, List.replicate_succ,
        List.cons_append]

theorem indented_indented (outer inner : Nat) (start : Bool) (content : List UInt8) :
    indented outer start (indented inner start content) =
      indented (outer + inner) start content := by
  induction content generalizing start with
  | nil => rfl
  | cons byte rest ih =>
      by_cases begins : (start && byte != newline) = true
      · rcases (Bool.and_eq_true _ _).mp begins with ⟨rfl, visible⟩
        have not_newline : (byte == newline) = false := by simpa using visible
        simp only [indented, begins, if_true, not_newline, indented_line outer inner visible, ih]
      · simp only [indented, begins, Bool.false_eq_true, if_false, List.nil_append, ih]

theorem startAfter_spaces (start : Bool) (count : Nat) (byte : UInt8) (content : List UInt8) :
    startAfter start (List.replicate count space ++ byte :: content) =
      startAfter (byte == newline) content := by
  rw [startAfter_append]
  rfl

@[simp]
theorem startAfter_indented (width : Nat) (start : Bool) (content : List UInt8) :
    startAfter start (indented width start content) = startAfter start content := by
  induction content generalizing start with
  | nil => rfl
  | cons byte rest ih =>
      simp only [indented, startAfter]
      split
      · rw [startAfter_spaces, ih]
      · rw [List.nil_append, startAfter, ih]

end Text

namespace Outcome

variable {State Below Bottom : Type}

/-- An outcome above tracks an outcome below: both come to the same halt, the state above stands on
the state below, and without a halt it is the one that `settled` builds on it. -/
structure Tracks (below : State → Below) (settled : Below → State) (outcome : Outcome State)
    (sent : Outcome Below) : Prop where
  halt_eq : outcome.halt = sent.halt
  below_eq : below outcome.state = sent.state
  state_eq : sent.halt = none → outcome.state = settled sent.state

namespace Tracks

variable {below : State → Below} {settled settled' : Below → State}
  {outcome : Outcome State} {sent : Outcome Below}

theorem done {state : Below} (lifts : below (settled state) = state) :
    Tracks below settled (.done (settled state)) (.done state) :=
  ⟨rfl, lifts, fun _ => rfl⟩

theorem eq_done {state : Below} (tracks : Tracks below settled outcome (.done state)) :
    outcome = .done (settled state) := by
  rcases outcome with ⟨reached, halt⟩
  exact congr (congrArg Outcome.mk (tracks.state_eq rfl)) tracks.halt_eq

theorem andThen (first : Tracks below settled outcome sent) {next : State → Outcome State}
    {nextSent : Below → Outcome Below}
    (second : ∀ state, Tracks below settled' (next (settled state)) (nextSent state)) :
    Tracks below settled' (outcome.andThen next) (sent.andThen nextSent) := by
  rcases outcome with ⟨state, halt⟩
  rcases sent with ⟨sentState, sentHalt⟩
  rcases first with ⟨halt_eq, below_eq, state_eq⟩
  simp only at halt_eq below_eq state_eq
  subst halt_eq
  cases halt with
  | none =>
      rw [state_eq rfl]
      exact second sentState
  | some halt => exact ⟨rfl, below_eq, fun impossible => by cases impossible⟩

/-- Tracking composes from one layer to the next. -/
theorem trans {bottom : Below → Bottom} {settledBelow : Bottom → Below} {base : Outcome Bottom}
    (upper : Tracks below settled outcome sent) (lower : Tracks bottom settledBelow sent base) :
    Tracks (fun state => bottom (below state)) (fun state => settled (settledBelow state)) outcome
      base := by
  refine ⟨upper.halt_eq.trans lower.halt_eq, ?_, ?_⟩
  · rw [upper.below_eq, lower.below_eq]
  · intro succeeded
    rw [upper.state_eq (lower.halt_eq.trans succeeded), lower.state_eq succeeded]

end Tracks

end Outcome

/-- Two contents may be sent at once or one after the other. -/
structure Sequential {State : Type} (send : State → List UInt8 → Outcome State) : Prop where
  send_nil : ∀ state, send state [] = .done state
  send_append : ∀ state first second,
    send state (first ++ second) = (send state first).andThen fun state => send state second

namespace Adapter

variable {State : Type} {send : State → List UInt8 → Outcome State}

/-- Inside a line a run is handed on as it is. -/
theorem passRun_inside (run : List UInt8) (width : Nat) (below : State) :
    passRun send run (⟨width, false⟩, below) =
      ⟨(⟨width, (send below run).halt.isNone && run.getLast? == some Text.newline⟩,
        (send below run).state), (send below run).halt⟩ := by
  simp [passRun, startLine]

/-- At the start of a line the indentation goes first, and the line has begun behind it. -/
theorem passRun_begin {byte : UInt8} (visible : byte ≠ Text.newline) (rest : List UInt8)
    (width : Nat) (below : State) :
    passRun send (byte :: rest) (⟨width, true⟩, below) =
      (startLine send [byte] ⟨width, true⟩ below).andThen
        fun state => passRun send (byte :: rest) (⟨width, false⟩, state.2) := by
  have begins : ∀ rest : List UInt8, startLine send (byte :: rest) ⟨width, true⟩ below =
      ⟨(⟨width, (send below (List.replicate width Text.space)).halt.isSome⟩,
        (send below (List.replicate width Text.space)).state),
        (send below (List.replicate width Text.space)).halt⟩ := by
    intro rest
    simp [startLine, indentation, visible]
  simp only [passRun_inside]
  simp only [passRun, begins]
  rcases send below (List.replicate width Text.space) with ⟨middle, _ | halt⟩
  · simp [Outcome.andThen]
  · simp [Outcome.andThen]

/-- A single byte below the indentation that it may need. -/
theorem passRun_byte (sequential : Sequential send) (width : Nat) (start : Bool) (byte : UInt8)
    (below : State) :
    Outcome.Tracks Prod.snd (fun below => (⟨width, byte == Text.newline⟩, below))
      (passRun send [byte] (⟨width, start⟩, below))
      (send below (Text.indented width start [byte])) := by
  have inside : ∀ below : State,
      Outcome.Tracks Prod.snd (fun below => (⟨width, byte == Text.newline⟩, below))
        (passRun send [byte] (⟨width, false⟩, below)) (send below [byte]) := by
    intro below
    rw [passRun_inside]
    refine ⟨rfl, rfl, ?_⟩
    intro succeeded
    simp [succeeded]
  cases start with
  | false => exact inside below
  | true =>
      by_cases newline : byte = Text.newline
      · subst newline
        refine ⟨rfl, rfl, fun _ => rfl⟩
      · have indented_eq : Text.indented width true [byte] =
            List.replicate width Text.space ++ [byte] := by
          simp [Text.indented, newline]
        rw [passRun_begin newline, indented_eq, sequential.send_append]
        have opened : Outcome.Tracks Prod.snd (fun below => (⟨width, false⟩, below))
            (startLine send [byte] ⟨width, true⟩ below)
            (send below (List.replicate width Text.space)) := by
          simp only [startLine, indentation, Bool.true_and, List.head?_cons]
          rw [if_pos (by simpa using newline)]
          refine ⟨rfl, rfl, ?_⟩
          intro succeeded
          simp [succeeded]
        exact opened.andThen inside

/-- A run may be cut behind any byte that is not a newline. -/
theorem passRun_cons (sequential : Sequential send) {byte : UInt8} (visible : byte ≠ Text.newline)
    {run : List UInt8} (nonempty : run ≠ []) (state : Adapter × State) :
    passRun send (byte :: run) state = (passRun send [byte] state).andThen (passRun send run) := by
  rcases state with ⟨⟨width, start⟩, below⟩
  have inside : ∀ below : State, passRun send (byte :: run) (⟨width, false⟩, below) =
      (passRun send [byte] (⟨width, false⟩, below)).andThen (passRun send run) := by
    intro below
    have split_send : send below (byte :: run) =
        (send below [byte]).andThen fun below => send below run :=
      sequential.send_append below [byte] run
    have not_newline : (byte == Text.newline) = false := by simpa using visible
    simp only [passRun_inside, List.getLast?_cons_of_ne_nil nonempty, split_send]
    rcases send below [byte] with ⟨middle, _ | halt⟩
    · simp [Outcome.andThen, not_newline, passRun_inside]
    · simp [Outcome.andThen]
  cases start with
  | false => exact inside below
  | true =>
      rw [passRun_begin visible run, passRun_begin visible [], Outcome.andThen_assoc]
      simp only [inside]

/-- An adapter hands on bytes one by one. -/
theorem pass_cons (sequential : Sequential send) (byte : UInt8) (rest : List UInt8)
    (state : Adapter × State) :
    pass send (byte :: rest) state =
      (passRun send [byte] state).andThen fun state => pass send rest state := by
  by_cases newline : byte = Text.newline
  · simp only [pass, runs, newline, if_true]
    rfl
  · cases runs_eq : runs rest with
    | nil => simp [pass, runs, newline, runs_eq, passRuns]
    | cons run more =>
        have nonempty : run ≠ [] := by
          rintro rfl
          cases rest with
          | nil => simp [runs] at runs_eq
          | cons byte' rest' =>
              simp only [runs] at runs_eq
              split at runs_eq
              · simp at runs_eq
              · split at runs_eq <;> simp at runs_eq
        simp only [pass, runs, newline, if_false, runs_eq, passRuns]
        rw [passRun_cons sequential newline nonempty, Outcome.andThen_assoc]

theorem pass_append (sequential : Sequential send) (first second : List UInt8)
    (state : Adapter × State) :
    pass send (first ++ second) state =
      (pass send first state).andThen fun state => pass send second state := by
  induction first generalizing state with
  | nil => rfl
  | cons byte rest ih =>
      rw [List.cons_append, pass_cons sequential, pass_cons sequential, Outcome.andThen_assoc]
      simp only [ih]

/-- What an adapter hands on is its content, indented. -/
theorem pass_tracks (sequential : Sequential send) (width : Nat) (start : Bool)
    (content : List UInt8) (below : State) :
    Outcome.Tracks Prod.snd (fun below => (⟨width, Text.startAfter start content⟩, below))
      (pass send content (⟨width, start⟩, below))
      (send below (Text.indented width start content)) := by
  induction content generalizing start below with
  | nil =>
      rw [Text.indented_nil, sequential.send_nil]
      exact Outcome.Tracks.done rfl
  | cons byte rest ih =>
      have indented_eq : Text.indented width start (byte :: rest) =
          Text.indented width start [byte] ++ Text.indented width (byte == Text.newline) rest := by
        rw [← List.singleton_append, Text.indented_append]
        rfl
      rw [pass_cons sequential, indented_eq, sequential.send_append]
      exact (passRun_byte sequential width start byte below).andThen fun below => ih _ below

end Adapter

namespace Writer

theorem writeAll_sequential (depth : Nat) : Sequential (writeAll depth) := by
  induction depth with
  | zero =>
      constructor
      · rintro ⟨sink⟩
        simp [writeAll]
      · rintro ⟨sink⟩ first second
        simp only [writeAll, Sink.writeAll_append]
        rcases sink.writeAll first with ⟨sink, _ | halt⟩ <;> rfl
  | succ depth ih =>
      constructor
      · intro writer
        cases writer with
        | layer adapter below => rfl
      · intro writer first second
        cases writer with
        | layer adapter below =>
            simp only [writeAll, Adapter.pass_append ih]
            rcases Adapter.pass (writeAll depth) first (adapter, below) with
              ⟨⟨adapter, below⟩, _ | halt⟩ <;> rfl

/-- The stack of adapters of the given widths, topmost first, all of which are at the start of a
line or all of which are not. -/
def aligned : (widths : List Nat) → (start : Bool) → Sink → Writer widths.length
  | [], _, sink => base sink
  | width :: widths, start, sink => layer ⟨width, start⟩ (aligned widths start sink)

@[simp]
theorem sink_aligned (widths : List Nat) (start : Bool) (sink : Sink) :
    (aligned widths start sink).sink = sink := by
  induction widths with
  | nil => rfl
  | cons width widths ih => exact ih

/-- A stack of adapters brings to the sink its content, indented by the sum of their widths. -/
theorem writeAll_tracks (widths : List Nat) (start : Bool) (content : List UInt8) (sink : Sink) :
    Outcome.Tracks Writer.sink (aligned widths (Text.startAfter start content))
      (writeAll widths.length (aligned widths start sink) content)
      (sink.writeAll (Text.indented widths.sum start content)) := by
  induction widths generalizing content with
  | nil =>
      have indented_eq : Text.indented 0 start content = content := by
        induction content generalizing start with
        | nil => rfl
        | cons byte rest ih => simp [Text.indented, ih]
      rw [List.sum_nil, indented_eq]
      exact ⟨rfl, rfl, fun _ => rfl⟩
  | cons width widths ih =>
      have upper := Adapter.pass_tracks (writeAll_sequential widths.length) width start content
        (aligned widths start sink)
      have lower := ih (Text.indented width start content)
      rw [Text.indented_indented, Text.startAfter_indented, Nat.add_comm] at lower
      have both := upper.trans lower
      refine ⟨both.halt_eq, both.below_eq, ?_⟩
      intro succeeded
      exact congrArg (fun state : Adapter × Writer widths.length => layer state.1 state.2)
        (both.state_eq succeeded)

end Writer

end ProtoSchema
