import Mathlib.Data.List.Basic
import Waveform.ByteOrder
import Waveform.Signed64

/-!
# Watched computations

A computation that is watched comes to nothing as soon as it does what no program survives: it reads
where nothing is, divides by zero or takes a number that its word cannot hold. One that gives a
result, be it an error, has done nothing of the kind. The plain computation that a watched one
agrees with is therefore safe.
-/

namespace Waveform

/-- A computation that is watched. It may fail with an error, or come to nothing. -/
abbrev Watched (ε α : Type) := ExceptT ε Option α

namespace Watched

variable {ε α β : Type} {value : α}

/-- Come to nothing unless a condition holds. -/
def require (condition : Prop) [Decidable condition] : Watched ε Unit :=
  if condition then pure () else ExceptT.mk none

/-- A result that a signed number of 64 bits must hold. -/
def signed (number : Int) : Watched ε Int := do
  require (IsSigned64 number)
  return number

/-- A result that an unsigned number of 64 bits must hold. -/
def unsigned (number : Nat) : Watched ε Nat := do
  require (number < UInt64.size)
  return number

/-- The bytes of a word at an address of a buffer. -/
def readAt (buffer : List UInt8) (address width : Nat) : Watched ε (List UInt8) := do
  require (address + width ≤ buffer.length)
  return bytesAt buffer address width

/-- Carry out a computation and tell how it came out. -/
def attempt {δ : Type} (watched : Watched ε α) : Watched δ (Except ε α) :=
  ExceptT.mk (watched.run.map .ok)

/-- Whether a computation comes to a result, be it an error. -/
def Gives (watched : Watched ε α) (result : Except ε α) : Prop := watched.run = some result

theorem gives_pure (value : α) : Gives (pure value : Watched ε α) (.ok value) := rfl

theorem gives_throw (error : ε) : Gives (throw error : Watched ε α) (.error error) := rfl

theorem gives_require {condition : Prop} [Decidable condition] (holds : condition) :
    Gives (require condition : Watched ε Unit) (.ok ()) := by
  rw [require, if_pos holds]
  rfl

theorem gives_signed {number : Int} (fits : IsSigned64 number) :
    Gives (signed number : Watched ε Int) (.ok number) := by
  rw [Gives, signed, ExceptT.run_bind, gives_require fits]
  rfl

theorem gives_unsigned {number : Nat} (fits : number < UInt64.size) :
    Gives (unsigned number : Watched ε Nat) (.ok number) := by
  rw [Gives, unsigned, ExceptT.run_bind, gives_require fits]
  rfl

theorem gives_readAt {buffer : List UInt8} {address width : Nat}
    (inside : address + width ≤ buffer.length) :
    Gives (readAt buffer address width : Watched ε _) (.ok (bytesAt buffer address width)) := by
  rw [Gives, readAt, ExceptT.run_bind, gives_require inside]
  rfl

theorem Gives.attempt {δ : Type} {watched : Watched ε α} {result : Except ε α}
    (gives : watched.Gives result) : Gives (watched.attempt : Watched δ _) (.ok result) := by
  rw [Gives] at gives
  simp only [Gives, Watched.attempt, gives]
  rfl

theorem Gives.bind {watched : Watched ε α} {next : α → Watched ε β} {result : Except ε β}
    (gives : watched.Gives (.ok value)) (later : (next value).Gives result) :
    Gives (watched >>= next) result := by
  rw [Gives, ExceptT.run_bind, gives]
  exact later

/-- Whatever a computation comes to, going on comes to what going on from there comes to. -/
theorem Gives.andThen {watched : Watched ε α} {result : Except ε α}
    {next : α → Watched ε β} {after : α → Except ε β} (gives : watched.Gives result)
    (later : ∀ value, (next value).Gives (after value)) :
    Gives (watched >>= next) (result >>= after) := by
  rw [Gives, ExceptT.run_bind, gives]
  cases result with
  | error error => rfl
  | ok value => exact later value

/-- A computation that is only checked further comes to what it comes to. -/
theorem Gives.andReturn {watched : Watched ε α} {result : Except ε α} {next : α → Watched ε α}
    (gives : watched.Gives result) (later : ∀ value, (next value).Gives (.ok value)) :
    Gives (watched >>= next) result := by
  rw [Gives, ExceptT.run_bind, gives]
  cases result with
  | error error => rfl
  | ok value => exact later value

theorem Gives.map {watched : Watched ε α} {result : Except ε α} (gives : watched.Gives result)
    (image : α → β) : Gives (watched >>= fun value => pure (image value)) (result.map image) := by
  rw [Gives, ExceptT.run_bind, gives]
  cases result <;> rfl

theorem gives_liftExcept (result : Except ε α) :
    Gives (liftExcept result : Watched ε α) result := by
  cases result <;> rfl

theorem Gives.mapM {items : List α} {step : α → Watched ε β} {plain : α → Except ε β}
    (gives : ∀ item ∈ items, (step item).Gives (plain item)) :
    Gives (items.mapM step) (items.mapM plain) := by
  induction items with
  | nil => exact gives_pure []
  | cons item later ih =>
      obtain ⟨first, others⟩ := List.forall_mem_cons.mp gives
      rw [List.mapM_cons, List.mapM_cons]
      refine first.andThen fun image => ?_
      exact (ih others).andThen fun images => gives_pure _

end Watched

end Waveform
