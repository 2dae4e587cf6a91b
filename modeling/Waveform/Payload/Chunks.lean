/-!
# Chunks of a byte list

A byte list cut into consecutive pieces of one size; a shorter rest at the end is left out.
-/

namespace Waveform

/-- The consecutive pieces of a positive size. -/
def chunks (size : Nat) (bytes : List UInt8) : List (List UInt8) :=
  if 0 < size ∧ (bytes.take size).length = size then
    bytes.take size :: chunks size (bytes.drop size)
  else []
termination_by bytes.length
decreasing_by simp only [List.length_take, List.length_drop] at *; omega

/-- There are as many pieces as fit. -/
theorem length_chunks (size : Nat) (bytes : List UInt8) :
    (chunks size bytes).length = bytes.length / size := by
  fun_induction chunks size bytes with
  | case1 bytes fits ih =>
      have enough : size ≤ bytes.length := by
        rw [← fits.2, List.length_take]
        exact Nat.min_le_right _ _
      simp only [List.length_cons, ih, List.length_drop]
      rw [Nat.div_eq_sub_div fits.1 enough]
  | case2 bytes short =>
      rcases Nat.eq_zero_or_pos size with rfl | positive
      · simp
      · have tooShort : bytes.length < size := by
          rw [List.length_take] at short
          omega
        exact (Nat.div_eq_of_lt tooShort).symm

end Waveform
