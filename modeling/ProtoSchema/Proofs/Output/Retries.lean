import ProtoSchema.Proofs.Output.Capacity

/-!
# Calls made again

Whoever writes all of some bytes makes an interrupted call again. `Sink.writeWithin` is that loop,
given up after a number of calls. It says what `Sink.writeAll` means by a halt that is endless: the
loop comes to an end with an outcome exactly if the outcome is that of `writeAll` and its halt is
not `Halt.endless`, and otherwise no number of calls is enough.
-/

namespace ProtoSchema.Sink

/-- Calls `write` until all of `content` is taken, and makes an interrupted call again. There is no
outcome if that takes more than `calls` calls. -/
def writeWithin : (calls : Nat) → Sink → (content : List UInt8) → Option (Outcome Sink)
  | _, sink, [] => some (.done sink)
  | 0, _, _ :: _ => none
  | calls + 1, sink, byte :: rest =>
    match sink.write (byte :: rest) with
    | (.error error, sink) =>
      if error.kind = .interrupted then sink.writeWithin calls (byte :: rest)
      else some (.halted (.failed error) sink)
    | (.ok 0, sink) => some (.halted (.failed .incomplete) sink)
    | (.ok (more + 1), sink) => sink.writeWithin calls ((byte :: rest).drop (more + 1))

variable {sink : Sink} {content : List UInt8} {outcome : Outcome Sink}

/-- A call that does not succeed leaves the sink as it was. -/
theorem eq_of_write_error {error : WriteError} {after : Sink}
    (write_eq : sink.write content = (.error error, after)) : after = sink := by
  rw [write] at write_eq
  split at write_eq
  · cases refusal_eq : sink.refusal.error? with
    | none => simp [refusal_eq] at write_eq
    | some found =>
        rw [refusal_eq] at write_eq
        cases write_eq
        rfl
  · cases write_eq

theorem writeAll_of_write_error {error : WriteError} {after : Sink} (nonempty : content ≠ [])
    (write_eq : sink.write content = (.error error, after)) :
    sink.writeAll content = .halted error.halt sink := by
  rw [writeAll, if_neg nonempty, write_eq, eq_of_write_error write_eq]

/-- A loop that comes to an end does so with the outcome of `writeAll`. -/
theorem writeAll_of_writeWithin {calls : Nat}
    (within : sink.writeWithin calls content = some outcome) :
    sink.writeAll content = outcome ∧ outcome.halt ≠ some .endless := by
  induction calls generalizing sink content with
  | zero =>
      cases content with
      | nil =>
          cases within
          exact ⟨writeAll_nil sink, by simp [Outcome.done]⟩
      | cons byte rest => cases within
  | succ calls ih =>
      cases content with
      | nil =>
          cases within
          exact ⟨writeAll_nil sink, by simp [Outcome.done]⟩
      | cons byte rest =>
          have nonempty : byte :: rest ≠ [] := List.cons_ne_nil byte rest
          rw [writeWithin] at within
          split at within
          · rename_i error after write_eq
            have whole := writeAll_of_write_error nonempty write_eq
            split at within
            · -- The loop is where it was, so its outcome would be one that cannot be.
              rename_i interrupted
              rw [eq_of_write_error write_eq] at within
              rcases ih within with ⟨rfl, returns⟩
              simp [whole, WriteError.halt, interrupted, Outcome.halted] at returns
            · rename_i lasting
              cases within
              rw [whole, eq_of_write_error write_eq, WriteError.halt, if_neg lasting]
              exact ⟨rfl, by simp [Outcome.halted]⟩
          · rename_i after write_eq
            cases within
            rw [writeAll, if_neg nonempty, write_eq]
            exact ⟨rfl, by simp [Outcome.halted]⟩
          · rename_i more after write_eq
            rw [writeAll, if_neg nonempty, write_eq]
            exact ih within

/-- Where `writeAll` does not go on for ever, some number of calls is enough. -/
theorem exists_writeWithin (returns : (sink.writeAll content).halt ≠ some .endless) :
    ∃ calls, sink.writeWithin calls content = some (sink.writeAll content) := by
  induction size : content.length using Nat.strongRecOn generalizing sink content with
  | ind length ih =>
      cases content with
      | nil => exact ⟨0, by rw [writeWithin, writeAll_nil]⟩
      | cons byte rest =>
          have nonempty : byte :: rest ≠ [] := List.cons_ne_nil byte rest
          rw [writeAll, if_neg nonempty] at returns ⊢
          split at returns
          · rename_i error after write_eq
            have lasting : error.kind ≠ .interrupted := by
              intro interrupted
              simp [WriteError.halt, interrupted, Outcome.halted] at returns
            exact ⟨1, by simp [writeWithin, write_eq, WriteError.halt, lasting]⟩
          · rename_i after write_eq
            exact ⟨1, by simp [writeWithin, write_eq]⟩
          · rename_i more after write_eq
            have shorter : ((byte :: rest).drop (more + 1)).length < length := by
              simp only [← size, List.length_drop, List.length_cons]
              omega
            rcases ih _ shorter returns rfl with ⟨calls, within⟩
            exact ⟨calls + 1, by rw [writeWithin, write_eq]; exact within⟩

/-- The loop comes to an end with an outcome exactly if that is the outcome of `writeAll` and is not
endless. -/
theorem exists_writeWithin_iff :
    (∃ calls, sink.writeWithin calls content = some outcome) ↔
      sink.writeAll content = outcome ∧ outcome.halt ≠ some .endless := by
  constructor
  · rintro ⟨calls, within⟩
    exact writeAll_of_writeWithin within
  · rintro ⟨rfl, returns⟩
    exact exists_writeWithin returns

/-- An endless halt is one that no number of calls gets past. -/
theorem halt_eq_endless_iff :
    (sink.writeAll content).halt = some .endless ↔
      ∀ calls, sink.writeWithin calls content = none := by
  constructor
  · intro endless calls
    cases within : sink.writeWithin calls content with
    | none => rfl
    | some outcome =>
        rcases writeAll_of_writeWithin within with ⟨rfl, returns⟩
        exact absurd endless returns
  · intro never
    by_contra returns
    rcases exists_writeWithin returns with ⟨calls, within⟩
    rw [never calls] at within
    cases within

end ProtoSchema.Sink
