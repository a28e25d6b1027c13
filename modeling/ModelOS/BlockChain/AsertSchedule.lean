import ModelOS.BlockChain.RequiredDifficulty

namespace ModelOS.BlockChain

open Data

section ShiftBy

variable {value other shifts more : Int}

theorem shiftBy_mono (below : value ≤ other) : shiftBy value shifts ≤ shiftBy other shifts := by
  unfold shiftBy
  split
  · rw [Int.shiftRight_eq_div_pow, Int.shiftRight_eq_div_pow]
    exact Int.ediv_le_ediv (by positivity) below
  · rw [Int.shiftLeft_eq, Int.shiftLeft_eq]
    exact Int.mul_le_mul_of_nonneg_right below (by positivity)

theorem shiftBy_double : shiftBy (2 * value) shifts = shiftBy value (shifts + 1) := by
  unfold shiftBy
  by_cases right : shifts < 0
  · obtain ⟨count, isCount⟩ : ∃ count, (-shifts).toNat = count + 1 :=
      ⟨(-(shifts + 1)).toNat, by omega⟩
    have halved : 2 * value / ((2 ^ (count + 1) : Nat) : Int) = value / (2 ^ count : Nat) := by
      rw [pow_succ, Nat.cast_mul, mul_comm 2 value, Int.mul_comm _ (2 : Nat)]
      exact mul_comm value 2 ▸ Int.mul_ediv_mul_of_pos _ _ two_pos
    rw [if_pos right, isCount, Int.shiftRight_eq_div_pow, halved]
    split
    · rw [Int.shiftRight_eq_div_pow, show (-(shifts + 1)).toNat = count by omega]
    · rw [show count = 0 by omega, show (shifts + 1).toNat = 0 by omega]
      simp
  · rw [if_neg right, if_neg (by omega), Int.shiftLeft_eq, Int.shiftLeft_eq,
      show (shifts + 1).toNat = shifts.toNat + 1 by omega, pow_succ]
    ring

theorem shiftBy_le_shiftBy (nonneg : 0 ≤ value) (fewer : shifts ≤ more) :
    shiftBy value shifts ≤ shiftBy value more := by
  induction more, fewer using Int.leInduction with
  | base => exact le_rfl
  | succ more _ ih =>
    refine ih.trans ?_
    rw [← shiftBy_double]
    exact shiftBy_mono (by omega)

end ShiftBy

section Factor

variable {first second : Int64}

theorem asertFactor_range (exponent : Int64) : 65536 ≤ (asertFactor (asertFrac exponent)).toInt ∧
      (asertFactor (asertFrac exponent)).toInt < 131072 := by
  have bounded := (asertCubic (asertFrac exponent)).toNat_lt
  rw [toInt_asertFactor]
  omega

theorem asertFactor_mono (below : (asertFrac first).toNat ≤ (asertFrac second).toNat) :
    (asertFactor (asertFrac first)).toInt ≤ (asertFactor (asertFrac second)).toInt := by
  rw [toInt_asertFactor, toInt_asertFactor, (cubicExact (toNat_asertFrac first)).total,
    (cubicExact (toNat_asertFrac second)).total]
  gcongr

/-- At the wrap of the fraction a factor below two becomes one more shift. -/
theorem shiftBy_asertFactor_mono (anchor : 0 ≤ anchorTarget)
    (below : first.toInt ≤ second.toInt) :
    shiftBy (anchorTarget * (asertFactor (asertFrac first)).toInt) (first.toInt / 2 ^ 16 - 16) ≤
      shiftBy (anchorTarget * (asertFactor (asertFrac second)).toInt)
        (second.toInt / 2 ^ 16 - 16) := by
  have firstFrac := toNat_asertFrac_eq first
  have secondFrac := toNat_asertFrac_eq second
  by_cases same : first.toInt / 2 ^ 16 = second.toInt / 2 ^ 16
  · rw [same]
    apply shiftBy_mono
    exact Int.mul_le_mul_of_nonneg_left (asertFactor_mono (by omega)) anchor
  · calc shiftBy (anchorTarget * (asertFactor (asertFrac first)).toInt) (first.toInt / 2 ^ 16 - 16)
        ≤ shiftBy (2 * (anchorTarget * 65536)) (first.toInt / 2 ^ 16 - 16) := by
          apply shiftBy_mono
          have high := (asertFactor_range first).2
          nlinarith
      _ = shiftBy (anchorTarget * 65536) (first.toInt / 2 ^ 16 - 16 + 1) := shiftBy_double
      _ ≤ shiftBy (anchorTarget * 65536) (second.toInt / 2 ^ 16 - 16) :=
          shiftBy_le_shiftBy (by omega) (by omega)
      _ ≤ _ := by
          apply shiftBy_mono
          exact Int.mul_le_mul_of_nonneg_left (asertFactor_range second).1 anchor

end Factor

theorem applyTargetFloor_mono (limit : 1 ≤ powLimit)
    (below : first ≤ second) :
    applyTargetFloor first powLimit ≤ applyTargetFloor second powLimit := by
  unfold applyTargetFloor
  split_ifs <;> omega

/-- Between two timestamps, and between two heights. -/
structure Differences (timeDiff heightDiff : Int64) : Prop where
  time : ∃ last anchor : UInt32, timeDiff = last.toUInt64.toInt64 - anchor.toUInt64.toInt64
  height : ∃ last anchor : Int32, heightDiff = (last - anchor).toInt64

structure RegularSchedule (anchorTarget powLimit : Int) (spacing halfLife : Int64) : Prop where
  cubic : ∀ exponent, CubicExact (asertFrac exponent) ∧
    65536 ≤ (asertFactor (asertFrac exponent)).toInt ∧
    (asertFactor (asertFrac exponent)).toInt < 131072
  exponent : ∀ timeDiff heightDiff, Differences timeDiff heightDiff →
    ExponentExact spacing timeDiff heightDiff halfLife
  time : ∀ timeDiff later heightDiff, Differences timeDiff heightDiff →
    Differences later heightDiff → timeDiff ≤ later →
    calcASERT anchorTarget spacing timeDiff heightDiff powLimit halfLife ≤
      calcASERT anchorTarget spacing later heightDiff powLimit halfLife
  height : ∀ timeDiff heightDiff higher, Differences timeDiff heightDiff →
    Differences timeDiff higher → heightDiff ≤ higher →
    calcASERT anchorTarget spacing timeDiff higher powLimit halfLife ≤
      calcASERT anchorTarget spacing timeDiff heightDiff powLimit halfLife
  range : ∀ timeDiff heightDiff, Differences timeDiff heightDiff →
    1 ≤ calcASERT anchorTarget spacing timeDiff heightDiff powLimit halfLife ∧
      calcASERT anchorTarget spacing timeDiff heightDiff powLimit halfLife ≤ powLimit

section Regular

variable {anchorTarget powLimit : Int} {spacing timeDiff heightDiff halfLife : Int64}

theorem Differences.exponentExact (differences : Differences timeDiff heightDiff)
    (positive : 0 < spacing) (short : spacing ≤ 65534) :
    ExponentExact spacing timeDiff heightDiff halfLife := by
  obtain ⟨⟨last, anchor, rfl⟩, lastHeight, anchorHeight, rfl⟩ := differences
  have lastTime := last.toNat_lt
  have anchorTime := anchor.toNat_lt
  have exactly : (last.toUInt64.toInt64 - anchor.toUInt64.toInt64).toInt =
      last.toNat - anchor.toNat :=
    toInt_sub_of_fits (toInt_unix _) (toInt_unix _) (by omega) (by omega)
  have heightLow := (lastHeight - anchorHeight).le_toInt
  have heightHigh := (lastHeight - anchorHeight).toInt_lt
  have toInt64 := (lastHeight - anchorHeight).toInt_toInt64
  rw [Int64.lt_iff_toInt_lt] at positive
  rw [Int64.le_iff_toInt_le] at short
  apply BlockChain.exponentExact positive short <;> omega

theorem calcASERT_mono (anchor : 1 ≤ anchorTarget)
    (limit : 1 ≤ powLimit) (halfLifePositive : 0 < halfLife.toInt)
    (exactly : ExponentExact spacing timeDiff higher halfLife)
    (exactlyLater : ExponentExact spacing later heightDiff halfLife)
    (below : timeDiff.toInt - spacing.toInt * (higher.toInt + 1) ≤
      later.toInt - spacing.toInt * (heightDiff.toInt + 1)) :
    calcASERT anchorTarget spacing timeDiff higher powLimit halfLife ≤
      calcASERT anchorTarget spacing later heightDiff powLimit halfLife := by
  rw [calcASERT_eq exactly, calcASERT_eq exactlyLater]
  apply applyTargetFloor_mono limit
  apply shiftBy_asertFactor_mono (by omega)
  rw [exactly.exponent, exactlyLater.exponent]
  exact Int.tdiv_le_tdiv halfLifePositive (by omega)

/-- The longest spacing that leaves no overflow to the longest time and the greatest height is
65534 seconds; up to it the schedule is regular. -/
theorem regularSchedule_iff (anchor : 1 ≤ anchorTarget) (limit : 1 ≤ powLimit)
    (spacingPositive : 0 < spacing) (halfLifePositive : 0 < halfLife) :
    RegularSchedule anchorTarget powLimit spacing halfLife ↔ spacing ≤ 65534 := by
  have longest : (65534 : Int64).toInt = 65534 := rfl
  constructor
  · intro regular
    have scaled := (regular.exponent (-4294967295) 2147483647
      ⟨⟨0, 4294967295, rfl⟩, 2147483647, 0, rfl⟩).scaled
    have low := ((-4294967295 - spacing * (2147483647 + 1)) * 65536).le_toInt
    have time : (-4294967295 : Int64).toInt = -4294967295 := rfl
    have height : (2147483647 : Int64).toInt = 2147483647 := rfl
    rw [scaled, time, height] at low
    rw [Int64.le_iff_toInt_le, longest]
    omega
  · intro short
    have positive := Int64.lt_iff_toInt_lt.mp halfLifePositive
    have spacingNonneg := Int64.lt_iff_toInt_lt.mp spacingPositive
    refine ⟨?_, ?_, ?_, ?_, fun _ _ _ => calcASERT_range limit _ _ _ _⟩
    · exact fun exponent => ⟨cubicExact (toNat_asertFrac exponent), asertFactor_range exponent⟩
    · exact fun _ _ differences => differences.exponentExact spacingPositive short
    · intro timeDiff later heightDiff differences laterDifferences before
      apply calcASERT_mono anchor limit positive (differences.exponentExact spacingPositive short)
        (laterDifferences.exponentExact spacingPositive short)
      have timesBefore := Int64.le_iff_toInt_le.mp before
      omega
    · intro timeDiff heightDiff higher differences higherDifferences above
      apply calcASERT_mono anchor limit positive
        (higherDifferences.exponentExact spacingPositive short)
        (differences.exponentExact spacingPositive short)
      have heightsAbove := Int64.le_iff_toInt_le.mp above
      have scheduled : spacing.toInt * (heightDiff.toInt + 1) ≤
          spacing.toInt * (higher.toInt + 1) :=
        Int.mul_le_mul_of_nonneg_left (by omega) (Int.le_of_lt spacingNonneg)
      omega

end Regular

theorem regularSchedule_colossus : RegularSchedule (2 ^ 198) (2 ^ 208 - 1) colossusTargetBlockTime
        colossusASERTHalflife ↔ colossusTargetBlockTime ≤ 65534 :=
  regularSchedule_iff (by decide) (by decide) (by decide) (by decide)

/-- With one second more between blocks an earlier block gets the easier target. -/
theorem longer_spacing_wraps : Differences (-4294967295) 2147483647 ∧ Differences 0 2147483647 ∧
      calcASERT (2 ^ 198) 65535 0 2147483647 (2 ^ 208 - 1) (2 ^ 62) <
        calcASERT (2 ^ 198) 65535 (-4294967295) 2147483647 (2 ^ 208 - 1) (2 ^ 62) := by
  refine ⟨⟨⟨0, 4294967295, rfl⟩, 2147483647, 0, rfl⟩, ⟨⟨0, 0, rfl⟩, 2147483647, 0, rfl⟩, ?_⟩
  decide +kernel

end ModelOS.BlockChain
