import ModelOS.Data.ByteFloat
import ModelOS.BlockChain.WorkMath

namespace ModelOS.BlockChain

open Data

variable {n : Nat}

theorem pow_bytes (length : Nat) : 2 ^ (8 * length) = 256 ^ length := by
  rw [Nat.pow_mul]

theorem bigBytesLength_bounds (positive : 0 < n) :
    256 ^ (bigBytesLength n - 1) ≤ n ∧ n < 256 ^ bigBytesLength n := by
  have nonzero : n ≠ 0 := Nat.ne_of_gt positive
  have low := Nat.log2_self_le nonzero
  have high := @Nat.lt_log2_self n
  rw [bigBytesLength, if_neg (by exact_mod_cast nonzero), Int.natAbs_natCast, Nat.add_sub_cancel]
  rw [← pow_bytes, ← pow_bytes]
  constructor
  · calc 2 ^ (8 * (n.log2 / 8)) ≤ 2 ^ n.log2 :=
          Nat.pow_le_pow_right (by decide) (by omega)
      _ ≤ n := low
  · calc n < 2 ^ (n.log2 + 1) := high
      _ ≤ 2 ^ (8 * (n.log2 / 8 + 1)) := Nat.pow_le_pow_right (by decide) (by omega)

theorem and_signBit_ne_zero {mantissa : UInt32} (short : mantissa.toNat < 2 ^ 24) :
    mantissa &&& 0x00800000 ≠ 0 ↔ 2 ^ 23 ≤ mantissa.toNat := by
  rw [Ne, ← UInt32.toNat_inj, UInt32.toNat_and]
  change ¬ mantissa.toNat &&& 2 ^ 23 = 0 ↔ _
  rw [Nat.and_two_pow, Nat.testBit_eq_decide_div_mod_eq]
  by_cases set : mantissa.toNat / 2 ^ 23 % 2 = 1
  · simp only [set, decide_true, Bool.toNat_true]
    omega
  · simp only [set, decide_false, Bool.toNat_false]
    omega

theorem toNat_leading {length : Nat} (short : n * 256 ^ 3 / 256 ^ length < 2 ^ 32) :
    (if length ≤ 3 then UInt32.ofNat ((n : Int).natAbs <<< (8 * (3 - length)))
      else UInt32.ofNat ((n : Int) >>> (8 * (length - 3))).natAbs).toNat =
      n * 256 ^ 3 / 256 ^ length := by
  split
  · next small =>
    obtain ⟨missing, total⟩ := Nat.exists_eq_add_of_le small
    have exactly : n * 256 ^ 3 / 256 ^ length = n * 256 ^ missing := by
      rw [total, Nat.pow_add, Nat.mul_left_comm]
      exact Nat.mul_div_cancel_left _ (Nat.pow_pos (by decide))
    rw [exactly] at short ⊢
    rw [Int.natAbs_natCast, Nat.shiftLeft_eq, total, Nat.add_sub_cancel_left, pow_bytes]
    exact UInt32.toNat_ofNat_of_lt' short
  · next large =>
    obtain ⟨further, rfl⟩ := Nat.exists_eq_add_of_le (Nat.le_of_not_le large)
    have exactly : n * 256 ^ 3 / 256 ^ (3 + further) = n / 256 ^ further := by
      rw [Nat.pow_add, Nat.mul_comm n]
      exact Nat.mul_div_mul_left _ _ (by decide)
    rw [exactly] at short ⊢
    have shifted : (n : Int) >>> (8 * further) = (n / 256 ^ further : Nat) := by
      rw [Int.shiftRight_eq_div_pow, ← pow_bytes]
      norm_cast
    rw [Nat.add_sub_cancel_left, shifted, Int.natAbs_natCast]
    exact UInt32.toNat_ofNat_of_lt' short

theorem toNat_fields (fits : exponent < 256)
    (short : mantissa.toNat < 2 ^ 24) : (UInt32.ofNat (exponent <<< 24) ||| mantissa).toNat =
      exponent * 2 ^ 24 + mantissa.toNat := by
  rw [UInt32.toNat_or, UInt32.toNat_ofNat_of_lt', ← Nat.shiftLeft_add_eq_or_of_lt short,
    Nat.shiftLeft_eq]
  rw [Nat.shiftLeft_eq]
  change _ < 2 ^ 32
  omega

theorem toNat_bigToCompact (positive : 0 < n) (fits : ByteFloat.exponentOf n < 256) :
    (bigToCompact n).toNat = ByteFloat.exponentOf n * 2 ^ 24 + ByteFloat.mantissaOf n := by
  obtain ⟨low, high⟩ := bigBytesLength_bounds positive
  have length : 0 < bigBytesLength n := by
    rw [bigBytesLength, if_neg (by omega)]
    omega
  obtain ⟨rest, total⟩ := Nat.exists_eq_add_of_lt length
  rw [Nat.zero_add] at total
  rw [bigToCompact, if_neg (by omega)]
  generalize bigBytesLength n = bytes at *
  subst total
  rw [Nat.add_sub_cancel] at low
  have leading : n * 256 ^ 3 / 256 ^ (rest + 1) < 2 ^ 24 := by
    apply Nat.div_lt_of_lt_mul
    omega
  have spec := @toNat_leading n (rest + 1) (by omega)
  have unsigned : ¬ (n : Int) < 0 := by omega
  simp only [if_neg unsigned]
  generalize (if rest + 1 ≤ 3 then UInt32.ofNat ((n : Int).natAbs <<< (8 * (3 - (rest + 1))))
    else UInt32.ofNat ((n : Int) >>> (8 * (rest + 1 - 3))).natAbs) = mantissa at *
  rw [← spec] at leading
  have powers : 256 ^ (rest + 1) = 256 * 256 ^ rest := by rw [Nat.pow_succ, Nat.mul_comm]
  by_cases tooLarge : 2 ^ 23 ≤ mantissa.toNat
  · have set := (and_signBit_ne_zero leading).mpr tooLarge
    simp only [if_pos set]
    rw [spec, Nat.le_div_iff_mul_le (Nat.pow_pos (by decide))] at tooLarge
    have exponent : ByteFloat.exponentOf n = rest + 1 + 1 := by
      apply ByteFloat.exponentOf_eq_of_bounds
      · rw [Nat.pow_succ]
        omega
      · rw [Nat.pow_succ, Nat.pow_succ]
        omega
    have reduced : (mantissa >>> 8).toNat = ByteFloat.mantissaOf n := by
      rw [UInt32.toNat_shiftRight, spec, ByteFloat.mantissaOf, exponent, Nat.pow_succ _ (rest + 1),
        ← Nat.div_div_eq_div_mul]
      exact Nat.shiftRight_eq_div_pow _ 8
    have stillShort : (mantissa >>> 8).toNat < 2 ^ 24 := by
      rw [reduced]
      exact Nat.lt_trans ByteFloat.mantissaOf_lt (by decide)
    rw [exponent] at fits ⊢
    rw [toNat_fields fits stillShort, reduced]
  · have clear : ¬ mantissa &&& 0x00800000 ≠ 0 := fun set =>
      tooLarge ((and_signBit_ne_zero leading).mp set)
    simp only [if_neg clear]
    rw [spec, Nat.le_div_iff_mul_le (Nat.pow_pos (by decide))] at tooLarge
    have exponent : ByteFloat.exponentOf n = rest + 1 := by
      apply ByteFloat.exponentOf_eq_of_bounds
      · omega
      · rw [Nat.pow_succ]
        omega
    rw [exponent] at fits ⊢
    rw [toNat_fields fits leading, spec, ByteFloat.mantissaOf, exponent]

theorem compactToBig_of_fields
    (short : mantissa < 2 ^ 23) (fields : bits.toNat = exponent * 2 ^ 24 + mantissa) :
    compactToBig bits = (ByteFloat.value mantissa exponent : Nat) := by
  have masked : (bits &&& 0x007fffff).toNat = mantissa := by
    rw [UInt32.toNat_and]
    change bits.toNat &&& (2 ^ 23 - 1) = mantissa
    rw [Nat.and_two_pow_sub_one_eq_mod, fields]
    omega
  have unsigned : ¬ bits &&& 0x00800000 ≠ 0 := by
    rw [Ne, ← UInt32.toNat_inj, UInt32.toNat_and, not_not]
    change bits.toNat &&& 2 ^ 23 = 0
    rw [Nat.and_two_pow, Nat.testBit_eq_decide_div_mod_eq, fields]
    have even : (exponent * 2 ^ 24 + mantissa) / 2 ^ 23 % 2 ≠ 1 := by omega
    rw [decide_eq_false even]
    rfl
  have shifted : (bits >>> 24).toNat = exponent := by
    rw [UInt32.toNat_shiftRight]
    change bits.toNat >>> 24 = exponent
    rw [Nat.shiftRight_eq_div_pow, fields]
    omega
  rw [compactToBig]
  simp only [masked, shifted, if_neg unsigned]
  rw [ByteFloat.value]
  split
  · next small =>
    obtain ⟨missing, total⟩ := Nat.exists_eq_add_of_le small
    rw [Nat.shiftRight_eq_div_pow, pow_bytes, total, Nat.add_sub_cancel_left, Nat.pow_add,
      Nat.mul_comm, Nat.mul_div_mul_left _ _ (Nat.pow_pos (by decide))]
  · next large =>
    obtain ⟨further, rfl⟩ := Nat.exists_eq_add_of_le (Nat.le_of_not_le large)
    rw [Nat.shiftLeft_eq, pow_bytes, Nat.add_sub_cancel_left, Nat.pow_add,
      Nat.mul_left_comm, Nat.mul_div_cancel_left _ (by decide)]

theorem compactToBig_bigToCompact (positive : 0 < n) (small : n < 2 ^ 256) :
    compactToBig (bigToCompact n) = (ByteFloat.rounded n : Nat) := by
  apply compactToBig_of_fields ByteFloat.mantissaOf_lt
  apply toNat_bigToCompact positive
  have bounded : ByteFloat.exponentOf n ≤ 33 := ByteFloat.exponentOf_le (by omega)
  omega

theorem bigToCompact_rounded (positive : 0 < n) (small : n < 2 ^ 256) :
    bigToCompact (ByteFloat.rounded n : Nat) = bigToCompact n := by
  have bounded : ByteFloat.exponentOf n ≤ 33 := ByteFloat.exponentOf_le (by omega)
  rw [← UInt32.toNat_inj, toNat_bigToCompact positive (by omega),
    toNat_bigToCompact (ByteFloat.rounded_pos positive), ByteFloat.exponentOf_rounded positive,
    ByteFloat.mantissaOf_rounded positive]
  rw [ByteFloat.exponentOf_rounded positive]
  omega

end ModelOS.BlockChain
