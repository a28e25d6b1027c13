import ModelOS.Data.Tiling
import ModelOS.ZkPow.Pattern

namespace ModelOS.ZkPow

open Data

theorem tiling_of_decodeDim
    (positive : 0 < minStride) (tiling : Tiling minStride base valid)
    (indivisible : Indivisible minStride base valid)
    (decoded : decodeDim factorByte lengthByte minStride isDone = .ok (dim, ends)) :
    (0 < dim.period ∧ dim.period ≤ 2 ^ 24) ∧ Tiling dim.period (spread base dim.stride dim.length)
        (spreadValid valid dim.stride dim.length) ∧
      Indivisible dim.period (spread base dim.stride dim.length)
        (spreadValid valid dim.stride dim.length) := by
  obtain ⟨factor, some, stride, nonempty, single, small⟩ := decodeDim_eq_ok decoded
  have divides : minStride ∣ dim.stride := stride ▸ Nat.dvd_mul_left _ _
  have strides : 0 < dim.stride := stride ▸ Nat.mul_pos some positive
  have wide := tiling.widen divides
  refine ⟨⟨Nat.mul_pos strides nonempty, small⟩, wide.spread strides nonempty, ?_⟩
  by_cases one : dim.length = 1
  · rw [PatternDim.period, stride, single one, one, Nat.one_mul]
    exact Tiling.indivisible_spread_one indivisible
  · exact wide.indivisible_spread strides (by omega)

namespace PeriodicPattern

/-- The tiles the miner tries; `none` is the panic.  Offsets are 64-bit numbers and are
cut to 32 bits where they are checked. -/
def threadsPartition (pattern : PeriodicPattern) (totalDimension : Nat) :
    Option (List (List Nat)) :=
  if totalDimension % pattern.period ≠ 0 then none
  else some (((List.range totalDimension).filter fun i =>
    pattern.offsetIsValid (i % 2 ^ 32)).map fun offset =>
      pattern.toList.map fun d => offset + d)

theorem tiling_of_fromBytes
    (decoded : fromBytes data = .ok pattern) : (0 < pattern.period ∧ pattern.period ≤ 2 ^ 24) ∧
      Tiling pattern.period pattern.toList pattern.offsetIsValid ∧
      Indivisible pattern.period pattern.toList pattern.offsetIsValid := by
  obtain ⟨_, _, _, _, _, _, _, _, _, _, firstDecoded, secondDecoded, thirdDecoded⟩ :=
    fromBytes_eq_ok decoded
  have none : Indivisible 1 [0] fun _ => true := by
    intro size some below
    omega
  obtain ⟨⟨positive, _⟩, tiling, whole⟩ :=
    tiling_of_decodeDim Nat.one_pos .trivial none firstDecoded
  obtain ⟨⟨positive, _⟩, tiling, whole⟩ := tiling_of_decodeDim positive tiling whole secondDecoded
  have result := tiling_of_decodeDim positive tiling whole thirdDecoded
  have same : pattern.offsetIsValid = spreadValid (spreadValid (spreadValid
      (fun _ => true) pattern.first.stride pattern.first.length)
        pattern.second.stride pattern.second.length) pattern.third.stride pattern.third.length := by
    funext offset
    rw [offsetIsValid, spreadValid, spreadValid, spreadValid, Bool.and_true, Bool.and_assoc]
    rfl
  rw [same]
  exact result

theorem threadsPartition_eq {pattern : PeriodicPattern}
    (divides : pattern.period ∣ totalDimension) :
    pattern.threadsPartition totalDimension = some (translates pattern.toList
      (fun i => pattern.offsetIsValid (i % 2 ^ 32)) totalDimension) :=
  if_neg (not_not.mpr (Nat.mod_eq_zero_of_dvd divides))

theorem length_toList (pattern : PeriodicPattern) : pattern.toList.length = pattern.size := by
  change (spread (spread (spread _ _ _) _ _) _ _).length = _
  simp [length_spread, size, shape, Nat.mul_comm, Nat.mul_left_comm]

/-- The tiles of a decoded pattern partition every side made of whole periods, unless
an offset is cut and a period goes across the cut. -/
theorem threadsPartition_iff {data : Bytes} {pattern : PeriodicPattern}
    (decoded : fromBytes data = .ok pattern) :
    pattern.toList.Pairwise (· < ·) ∧ pattern.toList.length = pattern.size ∧
      (∀ index ∈ pattern.toList, index < pattern.period) ∧
      ∀ totalDimension, pattern.period ∣ totalDimension →
        ∃ tiles, pattern.threadsPartition totalDimension = some tiles ∧
          (Partition tiles totalDimension ↔ totalDimension ≤ 2 ^ 32 ∨ pattern.period ∣ 2 ^ 32) := by
  obtain ⟨⟨positive, small⟩, tiling, indivisible⟩ := tiling_of_fromBytes decoded
  refine ⟨tiling.sorted, pattern.length_toList, fun _ => tiling.small positive, ?_⟩
  intro totalDimension divides
  refine ⟨_, threadsPartition_eq divides, ?_⟩
  exact tiling.partition_iff positive divides indivisible (small.trans (by decide))

def threeInARow : PeriodicPattern :=
  ⟨⟨1, 3⟩, ⟨3, 1⟩, ⟨3, 1⟩⟩

theorem threadsPartition_six :
    ∃ tiles, threeInARow.threadsPartition 6 = some tiles ∧ Partition tiles 6 := by
  have decoded : fromBytes [0, 2, 0, 0, 0, 0] = .ok threeInARow := by decide
  obtain ⟨tiles, found, parts⟩ := (threadsPartition_iff decoded).2.2.2 6 (by decide)
  exact ⟨tiles, found, parts.mpr (.inl (by decide))⟩

/-- Behind the cut the offsets start a new period in the middle of one. -/
theorem threadsPartition_overlaps : ∃ tiles,
    threeInARow.threadsPartition (2 ^ 32 + 2) = some tiles ∧
      [2 ^ 32 - 1, 2 ^ 32, 2 ^ 32 + 1] ∈ tiles ∧
      [2 ^ 32, 2 ^ 32 + 1, 2 ^ 32 + 2] ∈ tiles ∧ ¬ Partition tiles (2 ^ 32 + 2) := by
  refine ⟨_, threadsPartition_eq (by decide),
    mem_translates.mpr ⟨2 ^ 32 - 1, by decide, by decide, by decide⟩,
    mem_translates.mpr ⟨2 ^ 32, by decide, by decide, by decide⟩, fun parts => ?_⟩
  have inside := (parts.covers (2 ^ 32 + 2)).mp ⟨_,
    mem_translates.mpr ⟨2 ^ 32, by decide, by decide, rfl⟩, by decide⟩
  exact Nat.lt_irrefl _ inside

end PeriodicPattern

end ModelOS.ZkPow
