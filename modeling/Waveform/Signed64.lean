/-!
# Signed numbers of 64 bits

Times, distances between them and sample indices are signed numbers of 64 bits. Arithmetic on these
is exact as long as its results can be held in them, and wraps round where they cannot.
-/

namespace Waveform

/-- Whether a signed number of 64 bits can be this one. -/
def IsSigned64 (number : Int) : Prop :=
  -0x8000000000000000 ≤ number ∧ number < 0x8000000000000000

instance : DecidablePred IsSigned64 := fun _ => inferInstanceAs (Decidable (_ ∧ _))

/-- What a result is in a signed number of 64 bits. -/
def signed64 (result : Int) : Int :=
  (result + 0x8000000000000000) % 0x10000000000000000 - 0x8000000000000000

/-- A signed number of 64 bits taken for an unsigned one. -/
def unsigned64 (number : Int) : Nat :=
  (if number < 0 then number + 0x10000000000000000 else number).toNat

theorem signed64_of_fits {result : Int} (fits : IsSigned64 result) : signed64 result = result := by
  obtain ⟨atLeast, below⟩ := fits
  unfold signed64
  omega

theorem unsigned64_of_nonneg {number : Int} (nonneg : 0 ≤ number) :
    unsigned64 number = number.toNat := by
  rw [unsigned64, if_neg (Int.not_lt.mpr nonneg)]

end Waveform
