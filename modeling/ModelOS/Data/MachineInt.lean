import Mathlib

namespace ModelOS.Data

/-! Machine words as numbers, where the result fits. -/

section Int64

variable {first second : Int64} {left right : Int}

theorem toInt_neg_of_fits (isLeft : first.toInt = left) (low : -2 ^ 63 < left) :
    (-first).toInt = -left := by
  have high := first.toInt_lt
  rw [Int64.toInt_neg, isLeft]
  apply Int.bmod_eq_of_le <;> omega

section

variable (isLeft : first.toInt = left) (isRight : second.toInt = right)
include isLeft isRight

theorem toInt_add_of_fits (low : -2 ^ 63 ≤ left + right) (high : left + right < 2 ^ 63) :
    (first + second).toInt = left + right := by
  rw [Int64.toInt_add, isLeft, isRight]
  apply Int.bmod_eq_of_le <;> omega

theorem toInt_sub_of_fits (low : -2 ^ 63 ≤ left - right) (high : left - right < 2 ^ 63) :
    (first - second).toInt = left - right := by
  rw [Int64.toInt_sub, isLeft, isRight]
  apply Int.bmod_eq_of_le <;> omega

theorem toInt_mul_of_fits (low : -2 ^ 63 ≤ left * right) (high : left * right < 2 ^ 63) :
    (first * second).toInt = left * right := by
  rw [Int64.toInt_mul, isLeft, isRight]
  apply Int.bmod_eq_of_le <;> omega

theorem toInt_div_of_fits (low : -2 ^ 63 < left) :
    (first / second).toInt = left.tdiv right := by
  rw [← isLeft, ← isRight]
  apply Int64.toInt_div_of_ne_left
  rintro rfl
  rw [← isLeft] at low
  exact absurd low (by decide)

end

theorem toInt_shiftRight_sixteen : (first >>> 16).toInt = first.toInt / 2 ^ 16 := by
  rw [← Int64.toInt_toBitVec, Int64.toBitVec_shiftRight]
  change (first.toBitVec.sshiftRight 16).toInt = _
  rw [BitVec.toInt_sshiftRight, Int64.toInt_toBitVec, Int.shiftRight_eq_div_pow]
  rfl

theorem toInt_eq_of_toUInt64 : first.toInt = if 2 * first.toUInt64.toNat < 2 ^ 64 then
    (first.toUInt64.toNat : Int) else first.toUInt64.toNat - (2 ^ 64 : Nat) := by
  rw [← Int64.toInt_toBitVec, BitVec.toInt_eq_toNat_cond]
  rfl

theorem toNat_toUInt64_of_nonneg (nonneg : 0 ≤ first.toInt) :
    (first.toUInt64.toNat : Int) = first.toInt := by
  have small := first.toUInt64.toNat_lt
  rw [toInt_eq_of_toUInt64] at nonneg ⊢
  split at nonneg
  · next below => rw [if_pos below]
  · omega

end Int64

section UInt64

variable {first second : UInt64} {left right : Nat}

theorem toNat_add_of_fits (isLeft : first.toNat = left) (isRight : second.toNat = right)
    (fits : left + right < 2 ^ 64) : (first + second).toNat = left + right := by
  rw [UInt64.toNat_add, isLeft, isRight, Nat.mod_eq_of_lt fits]

theorem toNat_mul_of_fits (isLeft : first.toNat = left) (isRight : second.toNat = right)
    (fits : left * right < 2 ^ 64) : (first * second).toNat = left * right := by
  rw [UInt64.toNat_mul, isLeft, isRight, Nat.mod_eq_of_lt fits]

theorem toInt_toInt64_of_fits (isLeft : first.toNat = left) (fits : left < 2 ^ 63) :
    first.toInt64.toInt = left := by
  subst isLeft
  rw [← Int64.toInt_toBitVec, BitVec.toInt_eq_toNat_cond]
  change (if 2 * first.toNat < 2 ^ 64 then (first.toNat : Int)
    else first.toNat - (2 ^ 64 : Nat)) = first.toNat
  rw [if_pos (by omega)]

end UInt64

end ModelOS.Data
