/-!
# Processes that may fail

A process works on a state and may fail on the way. Nothing is undone then: the state stays as the
process has left it.
-/

namespace Waveform

/-- A process on a state, which may fail. -/
abbrev Process (σ ε α : Type) := ExceptT ε (StateM σ) α

namespace Process

variable {σ ε α β : Type} {process : Process σ ε α} {state changed : σ}

/-- Carry out a process and tell how it came out. -/
def attempt (process : Process σ ε α) : Process σ ε (Except ε α) := ExceptT.lift process.run

theorem attempt_of_ok {result : α} (isResult : process state = (.ok result, changed)) :
    process.attempt state = (.ok (.ok result), changed) := by
  change (Except.ok (process state).1, (process state).2) = _
  rw [isResult]

theorem pure_apply (result : α) (state : σ) :
    (pure result : Process σ ε α) state = (.ok result, state) := rfl

theorem get_bind (next : σ → Process σ ε α) (state : σ) :
    ((get : Process σ ε σ) >>= next) state = next state state := rfl

/-- A process that succeeds hands its result and the state on. -/
theorem bind_of_ok {result : α} (isResult : process state = (.ok result, changed))
    (next : α → Process σ ε β) : (process >>= next) state = next result changed := by
  change (ExceptT.bindCont next (process state).1) (process state).2 = next result changed
  rw [isResult]
  rfl

/-- A process that fails ends what it is a part of. -/
theorem bind_of_error {error : ε} (isError : process state = (.error error, changed))
    (next : α → Process σ ε β) : (process >>= next) state = (.error error, changed) := by
  change (ExceptT.bindCont next (process state).1) (process state).2 = (.error error, changed)
  rw [isError]
  rfl

theorem map_of_ok {result : α} (isResult : process state = (.ok result, changed)) (map : α → β) :
    (map <$> process) state = (.ok (map result), changed) := by
  rw [map_eq_pure_bind, bind_of_ok isResult]
  rfl

theorem map_of_error {error : ε} (isError : process state = (.error error, changed))
    (map : α → β) : (map <$> process) state = (.error error, changed) := by
  rw [map_eq_pure_bind, bind_of_error isError]

end Process

end Waveform
