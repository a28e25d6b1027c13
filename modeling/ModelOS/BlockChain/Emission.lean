import ModelOS.BlockChain.TxSanity

namespace ModelOS.BlockChain

def mainNetTargetTimePerBlock : Nat := 194

/-- The curve at a height that includes the offset. -/
def curveSubsidy (emissionConstant h : Nat) : Nat :=
  totalSupply * emissionConstant / ((h + emissionConstant) * (h - 1 + emissionConstant))

def blockSubsidy (emissionConstant height : Nat) : Nat :=
  if height = 0 then 0
  else if height ≤ 240 then inferenceRewardGrains
  else curveSubsidy emissionConstant (height + inferencePhase2Offset)

theorem curveSubsidy_le (emissionConstant : Nat) (above : 1 < h) :
    curveSubsidy emissionConstant h ≤ totalSupply := by
  apply Nat.div_le_of_le_mul
  rw [Nat.mul_comm totalSupply]
  apply Nat.mul_le_mul_right
  calc emissionConstant
      ≤ (h + emissionConstant) * 1 := by omega
    _ ≤ _ := Nat.mul_le_mul_left _ (by omega)

theorem blockSubsidy_le (emissionConstant height : Nat) :
    blockSubsidy emissionConstant height ≤ totalSupply := by
  unfold blockSubsidy
  split
  · exact Nat.zero_le _
  · split
    · decide
    · exact curveSubsidy_le _ (by rw [inferencePhase2Offset]; omega)

theorem toInt_calcBlockSubsidy (targetTimePerBlock : Nat) (int32 : height < 2 ^ 31) :
    (calcBlockSubsidy targetTimePerBlock (Int32.ofNat height)).toInt =
      blockSubsidy (4 * 365 * 24 * 60 * 60 / targetTimePerBlock) height := by
  have same : (Int32.ofNat height).toInt = height := Int32.toInt_ofNat_of_lt int32
  have small : totalSupply < 2 ^ 63 := by decide
  have bounded := blockSubsidy_le (4 * 365 * 24 * 60 * 60 / targetTimePerBlock) height
  have genesis : Int32.ofNat height = 0 ↔ height = 0 := by
    rw [← Int32.toInt_inj, same]
    exact Int.natCast_eq_zero
  have flat : Int32.ofNat height ≤ inferenceBlocks ↔ height ≤ 240 := by
    rw [Int32.le_iff_toInt_le, same]
    exact Int.ofNat_le
  unfold blockSubsidy at bounded ⊢
  unfold calcBlockSubsidy
  simp only [genesis, flat, same, Int.toNat_natCast]
  split
  · rfl
  · split
    · rfl
    · rw [if_neg ‹_›, if_neg ‹_›] at bounded
      exact Int64.toInt_ofNat_of_lt (lt_of_le_of_lt bounded small)

def curveRemainder (emissionConstant h : Nat) : ℚ :=
  (totalSupply * emissionConstant : Nat) / ((h : ℚ) + emissionConstant)

variable {emissionConstant : Nat}

theorem curveSubsidy_le_sub (positive : 0 < emissionConstant) (h : Nat) :
    (curveSubsidy emissionConstant (h + 1) : ℚ) ≤
      curveRemainder emissionConstant h - curveRemainder emissionConstant (h + 1) := by
  have emission : (0 : ℚ) < emissionConstant := Nat.cast_pos.mpr positive
  have first : (0 : ℚ) < h + emissionConstant := by positivity
  have second : (0 : ℚ) < h + 1 + emissionConstant := by positivity
  calc (curveSubsidy emissionConstant (h + 1) : ℚ)
      ≤ (totalSupply * emissionConstant : Nat) /
          (((h + 1 + emissionConstant) * (h + 1 - 1 + emissionConstant) : Nat) : ℚ) :=
        Nat.cast_div_le
    _ = curveRemainder emissionConstant h - curveRemainder emissionConstant (h + 1) := by
        simp only [curveRemainder, Nat.add_sub_cancel, Nat.cast_mul, Nat.cast_add, Nat.cast_one]
        field_simp
        ring

theorem sum_flat (emissionConstant : Nat) :
    ∑ height ∈ Finset.Icc 1 240, blockSubsidy emissionConstant height =
      240 * inferenceRewardGrains := by
  have flat : ∀ height ∈ Finset.Icc 1 240,
      blockSubsidy emissionConstant height = inferenceRewardGrains := by
    intro height member
    obtain ⟨above, below⟩ := Finset.mem_Icc.mp member
    unfold blockSubsidy
    rw [if_neg (by omega), if_pos below]
  rw [Finset.sum_congr rfl flat, Finset.sum_const, Nat.card_Icc]
  rfl

theorem sum_blockSubsidy_le (positive : 0 < emissionConstant) (tail : Nat) :
    ((∑ height ∈ Finset.Icc 1 (240 + tail), blockSubsidy emissionConstant height : Nat) : ℚ) ≤
      240 * inferenceRewardGrains + curveRemainder emissionConstant (240 + inferencePhase2Offset) -
          curveRemainder emissionConstant (240 + inferencePhase2Offset + tail) := by
  induction tail with
  | zero =>
    rw [Nat.add_zero, Nat.add_zero, sum_flat]
    push_cast
    linarith
  | succ tail ih =>
    have next : blockSubsidy emissionConstant (240 + tail + 1) =
        curveSubsidy emissionConstant (240 + inferencePhase2Offset + tail + 1) := by
      unfold blockSubsidy
      rw [if_neg (by omega), if_neg (by omega)]
      congr 1
      omega
    have step := curveSubsidy_le_sub positive (240 + inferencePhase2Offset + tail)
    rw [← Nat.add_assoc, Finset.sum_Icc_succ_top (by omega), next, Nat.cast_add, ← Nat.add_assoc]
    linarith

theorem curveSubsidy_anti (emissionConstant : Nat)
    (above : 1 < first) (later : first ≤ second) :
    curveSubsidy emissionConstant second ≤ curveSubsidy emissionConstant first := by
  apply Nat.div_le_div_left
  · exact Nat.mul_le_mul (by omega) (by omega)
  · exact Nat.mul_pos (by omega) (by omega)

theorem blockSubsidy_anti
    (starts : curveSubsidy emissionConstant (241 + inferencePhase2Offset) ≤ inferenceRewardGrains)
    (lastInference : 240 ≤ first) (later : first ≤ second) :
    blockSubsidy emissionConstant second ≤ blockSubsidy emissionConstant first := by
  have offset : 1 < 241 + inferencePhase2Offset := by decide
  unfold blockSubsidy
  rw [if_neg (by omega : ¬ first = 0), if_neg (by omega : ¬ second = 0)]
  by_cases lastSecond : second ≤ 240
  · rw [if_pos lastSecond, if_pos (later.trans lastSecond)]
  · rw [if_neg lastSecond]
    split
    · exact starts.trans' (curveSubsidy_anti _ offset (by omega))
    · exact curveSubsidy_anti _ (by omega) (by omega)

def mainNetSubsidy (height : Nat) : Int64 :=
  calcBlockSubsidy mainNetTargetTimePerBlock (Int32.ofNat height)

theorem sum_mainNet_le (int32 : height < 2 ^ 31) :
    ∑ i ∈ Finset.Icc 1 height, blockSubsidy 650226 i ≤ totalSupply := by
  -- the bound of the type is needed: the whole infinite tail would pay too much
  have more : Finset.Icc 1 height ⊆ Finset.Icc 1 (240 + (2 ^ 31 - 241)) :=
    Finset.Icc_subset_Icc le_rfl (by omega)
  have total := sum_blockSubsidy_le (by decide : 0 < 650226) (2 ^ 31 - 241)
  have room : (240 * inferenceRewardGrains +
      curveRemainder 650226 (240 + inferencePhase2Offset) -
        curveRemainder 650226 (240 + inferencePhase2Offset + (2 ^ 31 - 241)) : ℚ) ≤
          totalSupply := by
    norm_num [curveRemainder, inferenceRewardGrains, inferencePhase2Offset, totalSupply,
      grainPerMDL]
  calc ∑ i ∈ Finset.Icc 1 height, blockSubsidy 650226 i
      ≤ ∑ i ∈ Finset.Icc 1 (240 + (2 ^ 31 - 241)), blockSubsidy 650226 i :=
        Finset.sum_le_sum_of_subset more
    _ ≤ totalSupply := Nat.cast_le.mp (total.trans room)

/-- The subsidies up to any height stay below the cap; each is the exact quotient, and
from the last inference block on none is larger than the one before. -/
theorem emission_respects_cap {height : Nat} (int32 : height < 2 ^ 31) :
    ∑ i ∈ Finset.Icc 1 height, (mainNetSubsidy i).toInt ≤ totalSupply ∧
      (mainNetSubsidy height).toInt = blockSubsidy 650226 height ∧
      0 ≤ (mainNetSubsidy height).toInt ∧ ∀ earlier, 240 ≤ earlier → earlier ≤ height →
        (mainNetSubsidy height).toInt ≤ (mainNetSubsidy earlier).toInt := by
  have whole {i : Nat} (below : i ≤ height) : (mainNetSubsidy i).toInt = blockSubsidy 650226 i :=
    toInt_calcBlockSubsidy _ (lt_of_le_of_lt below int32)
  refine ⟨?_, whole le_rfl, ?_, ?_⟩
  · rw [Finset.sum_congr rfl fun i member => whole (Finset.mem_Icc.mp member).2, ← Nat.cast_sum]
    exact Int.ofNat_le.mpr (sum_mainNet_le int32)
  · rw [whole le_rfl]
    exact Int.natCast_nonneg _
  · intro earlier lastInference before
    rw [whole le_rfl, whole before]
    exact Int.ofNat_le.mpr (blockSubsidy_anti (by decide) lastInference before)

theorem emission_respects_cap_last_height :
    ∑ i ∈ Finset.Icc 1 2147483647, (mainNetSubsidy i).toInt ≤ 2100000000000000 ∧
      (mainNetSubsidy 2147483647).toInt ≤ (mainNetSubsidy 240).toInt :=
  have capped := @emission_respects_cap 2147483647 (by decide)
  ⟨capped.1, capped.2.2.2 240 (by decide) (by decide)⟩

end ModelOS.BlockChain
