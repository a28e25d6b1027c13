import Mathlib

namespace ModelOS.Data.ByteFloat

/-! Numbers rounded down to a mantissa of less than 23 bits and an exponent that counts
bytes. -/

/-- The exponent at which the mantissa has between 16 and 23 bits. -/
def exponentOf (n : Nat) : Nat :=
  Nat.log 256 (512 * n)

def mantissaOf (n : Nat) : Nat :=
  n * 256 ^ 3 / 256 ^ exponentOf n

def value (mantissa exponent : Nat) : Nat :=
  mantissa * 256 ^ exponent / 256 ^ 3

def rounded (n : Nat) : Nat :=
  value (mantissaOf n) (exponentOf n)

variable {n k : Nat}

theorem exponentOf_eq_of_bounds (low : 256 ^ exponent ≤ 512 * n)
    (high : 512 * n < 256 ^ (exponent + 1)) : exponentOf n = exponent := by
  apply Nat.log_eq_of_pow_le_of_lt_pow low high

theorem exponentOf_mono (below : k ≤ n) : exponentOf k ≤ exponentOf n := by
  apply Nat.log_mono_right
  omega

theorem pow_exponentOf_le (positive : 0 < n) : 256 ^ exponentOf n ≤ 512 * n := by
  apply Nat.pow_log_le_self
  omega

theorem lt_pow_exponentOf : 512 * n < 256 ^ (exponentOf n + 1) := by
  apply Nat.lt_pow_succ_log_self
  decide

theorem exponentOf_le (small : 512 * n < 256 ^ (bound + 1)) :
    exponentOf n ≤ bound := by
  apply Nat.le_of_lt_succ
  apply Nat.log_lt_of_lt_pow' (Nat.succ_ne_zero bound) small

theorem le_mantissaOf (positive : 0 < n) : 2 ^ 15 ≤ mantissaOf n := by
  rw [mantissaOf, Nat.le_div_iff_mul_le (Nat.pow_pos (by decide))]
  have low := pow_exponentOf_le positive
  omega

theorem mantissaOf_lt : mantissaOf n < 2 ^ 23 := by
  rw [mantissaOf, Nat.div_lt_iff_lt_mul (Nat.pow_pos (by decide))]
  have high := @lt_pow_exponentOf n
  rw [Nat.pow_succ] at high
  omega

theorem rounded_le : rounded n ≤ n := by
  have floored : mantissaOf n * 256 ^ exponentOf n ≤ n * 256 ^ 3 := Nat.div_mul_le_self _ _
  rw [rounded, value]
  calc mantissaOf n * 256 ^ exponentOf n / 256 ^ 3
      ≤ n * 256 ^ 3 / 256 ^ 3 := Nat.div_le_div_right floored
    _ = n := Nat.mul_div_cancel n (by decide)

theorem rounded_of_small (small : exponentOf n ≤ 3) : rounded n = n := by
  have divides : 256 ^ exponentOf n ∣ n * 256 ^ 3 := Dvd.dvd.mul_left (Nat.pow_dvd_pow 256 small) n
  rw [rounded, value, mantissaOf, Nat.div_mul_cancel divides]
  exact Nat.mul_div_cancel n (by decide)

theorem rounded_mul (large : 3 ≤ exponentOf n) :
    rounded n * 256 ^ 3 = mantissaOf n * 256 ^ exponentOf n := by
  have divides : 256 ^ 3 ∣ mantissaOf n * 256 ^ exponentOf n :=
    Dvd.dvd.mul_left (Nat.pow_dvd_pow 256 large) _
  exact Nat.div_mul_cancel divides

theorem exponentOf_rounded (positive : 0 < n) : exponentOf (rounded n) = exponentOf n := by
  rcases Nat.le_total (exponentOf n) 3 with small | large
  · rw [rounded_of_small small]
  · have product := rounded_mul large
    have low := Nat.mul_le_mul_right (256 ^ exponentOf n) (le_mantissaOf positive)
    have high := Nat.mul_lt_mul_of_pos_right (@mantissaOf_lt n)
      (show 0 < 256 ^ exponentOf n by positivity)
    apply exponentOf_eq_of_bounds
    · omega
    · rw [Nat.pow_succ]
      omega

theorem mantissaOf_rounded (positive : 0 < n) : mantissaOf (rounded n) = mantissaOf n := by
  rcases Nat.le_total (exponentOf n) 3 with small | large
  · rw [rounded_of_small small]
  · rw [mantissaOf, exponentOf_rounded positive, rounded_mul large]
    exact Nat.mul_div_cancel _ (by positivity)

theorem rounded_pos (positive : 0 < n) : 0 < rounded n := by
  rcases Nat.le_total (exponentOf n) 3 with small | large
  · rwa [rounded_of_small small]
  · have product := rounded_mul large
    have mantissa := le_mantissaOf positive
    have power : 0 < mantissaOf n * 256 ^ exponentOf n := Nat.mul_pos (by omega) (by positivity)
    omega

theorem le_rounded (positive : 0 < k) (exactly : rounded k = k) (below : k ≤ n) :
    k ≤ rounded n := by
  rcases Nat.le_total (exponentOf n) 3 with small | large
  · rwa [rounded_of_small small]
  · apply Nat.le_of_mul_le_mul_right _ (show 0 < 256 ^ 3 by decide)
    rw [rounded_mul large]
    rcases Nat.eq_or_lt_of_le (exponentOf_mono below) with same | less
    · rw [← exactly, rounded_mul (same ▸ large), same]
      apply Nat.mul_le_mul_right
      rw [mantissaOf, mantissaOf, same]
      apply Nat.div_le_div_right
      exact Nat.mul_le_mul_right _ below
    · -- One more byte of exponent outweighs every mantissa.
      have high := @lt_pow_exponentOf k
      have grows : 256 ^ (exponentOf k + 1) ≤ 256 ^ exponentOf n :=
        Nat.pow_le_pow_right (by decide) less
      have mantissa := Nat.mul_le_mul_right (256 ^ exponentOf n)
        (le_mantissaOf (Nat.lt_of_lt_of_le positive below))
      omega

end ModelOS.Data.ByteFloat
