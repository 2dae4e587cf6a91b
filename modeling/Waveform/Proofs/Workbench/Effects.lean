import Waveform.Proofs.Workbench.Naming
import Waveform.Workbench.PlainWorkbench

/-!
# Effects of commands on plain traces

A command that is carried out changes at most the traces that it is applied to, and it answers
without an error unless it is a splice.
-/

namespace Waveform

/-- The names whose traces a command may change. There are none if it only asks. -/
def Command.changes : Command → List String
  | .create name _ _ => [name]
  | .setStart name _ => [name]
  | .setRate name _ => [name]
  | .append name _ => [name]
  | .extend name _ _ _ => [name]
  | .crop name _ _ => [name]
  | .dropBefore name _ => [name]
  | .dropAfter name _ => [name]
  | .clear name => [name]
  | .drop name => [name]
  | .join source target _ => [source, target]
  | .splice name sources => name :: sources
  | .slice _ _ _ | .sliceFrom _ _ _ | .sliceBetween _ _ _ | .samples _ | .digest _ | .covers _ _ _
  | .describe _ | .compare _ _ => []

/-- Whether a command takes its traces off the workbench even if it fails. -/
def Command.consumes : Command → Bool
  | .splice _ _ => true
  | _ => false

/-- If two steps after each other succeed, the first one does, and the second one on its result. -/
theorem ok_of_bind {ε α β : Type} {first : Except ε α} {next : α → Except ε β} {result : β}
    (isResult : (first >>= next) = .ok result) :
    ∃ value, first = .ok value ∧ next value = .ok result := by
  cases first with
  | error error => cases isResult
  | ok value => exact ⟨value, rfl, isResult⟩

namespace PlainWorkbench

/-- Whether an effect stays within what a command may do to some traces. -/
structure Effect.Within (effect : Effect) (command : Command) (traces : Named Trace) : Prop where
  others : ∀ name, name ∉ command.changes → effect.2.find? name = traces.find? name
  answered : command.consumes = false → ∃ reply, effect.1 = .ok reply

variable {traces : Named Trace} {name : String} {command : Command} {effect : Effect}

theorem within_of_reply (reply : Reply) :
    Effect.Within (.ok reply, traces) command traces where
  others := fun _ _ => rfl
  answered := fun _ => ⟨reply, rfl⟩

theorem within_of_put (trace : Trace) (changes : name ∈ command.changes) :
    Effect.Within (.ok .done, traces.put name trace) command traces where
  others := by
    intro other unchanged
    apply Named.find?_put_of_ne
    rintro rfl
    exact unchanged changes
  answered := fun _ => ⟨.done, rfl⟩

theorem within_of_ask {question : Trace → Except TraceError Reply}
    (carriedOut : ask traces name question = .ok effect) : effect.Within command traces := by
  obtain ⟨trace, _, asked⟩ := ok_of_bind carriedOut
  obtain ⟨reply, _, isEffect⟩ := ok_of_bind asked
  cases isEffect
  exact within_of_reply reply

theorem within_of_change {operation : Trace → Except TraceError Trace}
    (changes : name ∈ command.changes)
    (carriedOut : change traces name operation = .ok effect) : effect.Within command traces := by
  obtain ⟨trace, _, changed⟩ := ok_of_bind carriedOut
  obtain ⟨new, _, isEffect⟩ := ok_of_bind changed
  cases isEffect
  exact within_of_put new changes

theorem join_within {source target : String} {tolerance : Tolerance}
    (carriedOut : perform traces (.join source target tolerance) = .ok effect) :
    effect.Within (.join source target tolerance) traces := by
  rw [perform] at carriedOut
  obtain ⟨sourceTrace, _, found⟩ := ok_of_bind carriedOut
  obtain ⟨targetTrace, _, planned⟩ := ok_of_bind found
  obtain ⟨joined, _, isEffect⟩ := ok_of_bind planned
  cases isEffect
  constructor
  case others =>
    intro other unchanged
    have different : other ≠ source ∧ other ≠ target := by
      simpa [Command.changes] using unchanged
    exact (Named.find?_put_of_ne _ _ different.2).trans (Named.find?_put_of_ne _ _ different.1)
  case answered => exact fun _ => ⟨.done, rfl⟩

theorem splice_within {sources : List String}
    (carriedOut : perform traces (.splice name sources) = .ok effect) :
    effect.Within (.splice name sources) traces := by
  rw [perform] at carriedOut
  obtain ⟨⟨chosen, rest⟩, isTaken, spliced⟩ := ok_of_bind carriedOut
  have areTaken : traces.takeAll sources = .ok (chosen, rest) := by
    cases taken : traces.takeAll sources with
    | error missing =>
        rw [taken] at isTaken
        cases isTaken
    | ok reached =>
        rw [taken] at isTaken
        cases isTaken
        rfl
  constructor
  case others =>
    intro other unchanged
    have different : other ≠ name ∧ other ∉ sources := by
      simpa [Command.changes] using unchanged
    have isRest := Named.find?_of_takeAll areTaken different.2
    dsimp only at spliced
    split at spliced
    next => cases spliced; exact isRest
    next => cases spliced; exact isRest
    next result _ =>
      cases spliced
      exact (Named.find?_put_of_ne rest result different.1).trans isRest
  case answered => exact fun keeps => nomatch keeps

/-- A command that is carried out stays within what it may do. -/
theorem perform_within (carriedOut : perform traces command = .ok effect) :
    effect.Within command traces := by
  cases command with
  | create name pool origin =>
      cases origin with
      | none =>
          rw [perform] at carriedOut
          cases carriedOut
          exact within_of_put Trace.empty List.mem_cons_self
      | some origin =>
          rw [perform] at carriedOut
          obtain ⟨trace, _, isEffect⟩ := ok_of_bind carriedOut
          cases isEffect
          exact within_of_put trace List.mem_cons_self
  | drop name =>
      rw [perform] at carriedOut
      cases carriedOut
      constructor
      case others =>
        intro other unchanged
        apply Named.find?_remove_of_ne
        rintro rfl
        exact unchanged List.mem_cons_self
      case answered => exact fun _ => ⟨.done, rfl⟩
  | compare first second =>
      rw [perform] at carriedOut
      obtain ⟨firstTrace, _, found⟩ := ok_of_bind carriedOut
      obtain ⟨secondTrace, _, isEffect⟩ := ok_of_bind found
      cases isEffect
      exact within_of_reply _
  | join source target tolerance => exact join_within carriedOut
  | splice name sources => exact splice_within carriedOut
  | setStart | setRate | append | extend | crop | dropBefore | dropAfter | clear =>
      rw [perform] at carriedOut
      exact within_of_change List.mem_cons_self carriedOut
  | slice | sliceFrom | sliceBetween | samples | digest | covers | describe =>
      rw [perform] at carriedOut
      exact within_of_ask carriedOut

end PlainWorkbench

end Waveform
