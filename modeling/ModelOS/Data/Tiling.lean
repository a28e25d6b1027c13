import Mathlib

namespace ModelOS.Data

/-! Tilings of the numbers by translates of one finite set. -/

/-- Each number lies in the translate of the base by exactly one valid offset, and no
translate crosses a multiple of the period. -/
structure Tiling (period : Nat) (base : List Nat) (valid : Nat → Bool) : Prop where
  zero : 0 ∈ base ∧ valid 0 = true
  sorted : base.Pairwise (· < ·)
  periodic : ∀ offset, valid (offset % period) = valid offset
  block : ∀ offset, valid offset = true → ∀ index ∈ base,
    (offset + index) / period = offset / period
  covers : ∀ cell, ∃ offset, valid offset = true ∧ ∃ index ∈ base, offset + index = cell
  unique : ∀ offset other, valid offset = true → valid other = true →
    ∀ index ∈ base, ∀ second ∈ base, offset + index = other + second → offset = other

/-- No shorter beginning of the period is made of whole translates. -/
def Indivisible (period : Nat) (base : List Nat) (valid : Nat → Bool) : Prop :=
  ∀ size, 0 < size → size < period →
    ∃ offset < size, valid offset = true ∧ ∃ index ∈ base, size ≤ offset + index

def spread (base : List Nat) (stride length : Nat) : List Nat :=
  (List.range length).flatMap fun i => base.map fun r => r + i * stride

def spreadValid (valid : Nat → Bool) (stride length offset : Nat) : Bool :=
  decide (offset % (stride * length) < stride) && valid (offset % (stride * length))

def translates (base : List Nat) (valid : Nat → Bool) (total : Nat) : List (List Nat) :=
  ((List.range total).filter valid).map fun offset =>
    base.map fun index => offset + index

structure Partition (tiles : List (List Nat)) (total : Nat) : Prop where
  disjoint : tiles.Pairwise List.Disjoint
  covers : ∀ cell, (∃ tile ∈ tiles, cell ∈ tile) ↔ cell < total

variable {period stride length total word : Nat} {base : List Nat} {valid : Nat → Bool}

theorem mem_spread : index ∈ spread base stride length ↔
    ∃ i < length, ∃ r ∈ base, r + i * stride = index := by
  simp [spread]

theorem length_spread : (spread base stride length).length = length * base.length := by
  simp [spread]

theorem mem_translates : tile ∈ translates base valid total ↔
    ∃ offset < total, valid offset = true ∧ base.map (offset + ·) = tile := by
  simp [translates, and_assoc]

namespace Tiling

theorem trivial : Tiling 1 [0] fun _ => true := by
  refine ⟨by simp, by simp, fun _ => rfl, ?_, ?_, ?_⟩
  · intro offset _ index member
    rw [List.mem_singleton.mp member, Nat.add_zero]
  · intro cell
    exact ⟨cell, rfl, 0, List.mem_singleton_self 0, rfl⟩
  · intro offset other _ _ index member second secondMember sum
    rw [List.mem_singleton.mp member, List.mem_singleton.mp secondMember] at sum
    exact sum

theorem widen (tiling : Tiling period base valid) (divides : period ∣ stride) :
    Tiling stride base valid := by
  refine ⟨tiling.zero, tiling.sorted, ?_, ?_, tiling.covers, tiling.unique⟩
  · intro offset
    rw [← tiling.periodic, Nat.mod_mod_of_dvd _ divides, tiling.periodic]
  · intro offset isValid index member
    obtain ⟨factor, rfl⟩ := divides
    rw [← Nat.div_div_eq_div_mul, tiling.block offset isValid index member, Nat.div_div_eq_div_mul]

theorem small (tiling : Tiling period base valid) (positive : 0 < period)
    (member : index ∈ base) : index < period := by
  have block := tiling.block 0 tiling.zero.2 index member
  rw [Nat.zero_add, Nat.zero_div, Nat.div_eq_zero_iff] at block
  omega

section Spread

variable (tiling : Tiling stride base valid) (positive : 0 < stride) (nonempty : 0 < length)
include tiling positive

theorem spreadValid_iff : spreadValid valid stride length offset = true ↔
    offset / stride % length = 0 ∧ valid offset = true := by
  rw [spreadValid, Bool.and_eq_true, decide_eq_true_eq, ← tiling.periodic (_ % _),
    Nat.mod_mul_right_mod, tiling.periodic, ← Nat.mod_mul_right_div_self,
    Nat.div_eq_zero_iff, or_iff_right positive.ne']

theorem row (isValid : spreadValid valid stride length offset = true)
    (member : r ∈ base) (below : i < length) : (offset + (r + i * stride)) / stride % length = i ∧
      (offset + (r + i * stride)) / (stride * length) = offset / (stride * length) := by
  obtain ⟨whole, isValid⟩ := (tiling.spreadValid_iff positive).mp isValid
  have rows := Nat.div_add_mod (offset / stride) length
  rw [whole, Nat.add_zero] at rows
  have div : (offset + (r + i * stride)) / stride = length * (offset / stride / length) + i := by
    rw [← Nat.add_assoc, Nat.add_mul_div_right _ _ positive,
      tiling.block offset isValid r member, rows]
  rw [← Nat.div_div_eq_div_mul, ← Nat.div_div_eq_div_mul, div, Nat.mul_add_mod,
    Nat.mul_add_div (Nat.zero_lt_of_lt below), Nat.mod_eq_of_lt below, Nat.div_eq_of_lt below]
  exact ⟨rfl, rfl⟩

include nonempty in
/-- Copies of the base at multiples of the stride leave the offsets below it. -/
theorem spread : Tiling (stride * length) (Data.spread base stride length)
    (spreadValid valid stride length) := by
  constructor
  · refine ⟨mem_spread.mpr ⟨0, nonempty, 0, tiling.zero.1, by simp⟩, ?_⟩
    exact (tiling.spreadValid_iff positive).mpr ⟨by simp, tiling.zero.2⟩
  · refine List.pairwise_flatMap.mpr ⟨?_, List.pairwise_lt_range.imp ?_⟩
    · intro i _
      exact tiling.sorted.map _ fun _ _ less => Nat.add_lt_add_right less _
    · intro i j less first firstMember second secondMember
      obtain ⟨r, member, rfl⟩ := List.mem_map.mp firstMember
      obtain ⟨r', _, rfl⟩ := List.mem_map.mp secondMember
      have below := tiling.small positive member
      have step := Nat.mul_le_mul_right stride less
      rw [Nat.succ_mul] at step
      omega
  · intro offset
    simp [spreadValid]
  · intro offset isValid index member
    obtain ⟨i, below, r, inBase, rfl⟩ := mem_spread.mp member
    exact (tiling.row positive isValid inBase below).2
  · intro cell
    -- Go down by the whole strides above the last multiple of the period.
    have lower : stride * (cell / stride % length) ≤ cell :=
      (Nat.mul_le_mul_left stride (Nat.mod_le _ _)).trans (Nat.mul_div_le cell stride)
    obtain ⟨offset, isValid, r, member, sum⟩ :=
      tiling.covers (cell - stride * (cell / stride % length))
    have block := tiling.block offset isValid r member
    rw [sum, Nat.sub_mul_div] at block
    refine ⟨offset, (tiling.spreadValid_iff positive).mpr ⟨?_, isValid⟩, _,
      mem_spread.mpr ⟨_, Nat.mod_lt (cell / stride) nonempty, r, member, rfl⟩, ?_⟩
    · rw [← block]
      exact Nat.mod_eq_zero_of_dvd (Nat.dvd_sub_mod _)
    · rw [Nat.mul_comm _ stride]
      omega
  · intro offset other isValid otherValid index member second secondMember sum
    obtain ⟨i, below, r, inBase, rfl⟩ := mem_spread.mp member
    obtain ⟨j, otherBelow, r', otherInBase, rfl⟩ := mem_spread.mp secondMember
    have row := (tiling.row positive isValid inBase below).1
    rw [sum, (tiling.row positive otherValid otherInBase otherBelow).1] at row
    subst row
    exact tiling.unique offset other ((tiling.spreadValid_iff positive).mp isValid).2
      ((tiling.spreadValid_iff positive).mp otherValid).2 r inBase r' otherInBase (by omega)

theorem indivisible_spread (several : 2 ≤ length) :
    Indivisible (stride * length) (Data.spread base stride length)
      (spreadValid valid stride length) := by
  have spread := tiling.spread positive (Nat.zero_lt_of_lt several)
  obtain ⟨more, rfl⟩ := Nat.exists_eq_add_of_le several
  intro size some below
  by_cases early : size ≤ (1 + more) * stride
  · refine ⟨0, some, spread.zero.2, (1 + more) * stride, ?_, by omega⟩
    exact mem_spread.mpr ⟨1 + more, by omega, 0, tiling.zero.1, Nat.zero_add _⟩
  · obtain ⟨offset, isValid, index, member, sum⟩ := spread.covers (stride * (2 + more) - 1)
    have first : offset < stride := by
      have inRow := isValid
      rw [spreadValid, Nat.mod_eq_of_lt (by omega)] at inRow
      exact of_decide_eq_true (Bool.and_eq_true_iff.mp inRow).1
    have wide : stride ≤ (1 + more) * stride := Nat.le_mul_of_pos_left stride (by omega)
    exact ⟨offset, by omega, isValid, index, member, by omega⟩

end Spread

theorem indivisible_spread_one (indivisible : Indivisible stride base valid) :
    Indivisible (stride * 1) (Data.spread base stride 1) (spreadValid valid stride 1) := by
  rw [Nat.mul_one]
  intro size some below
  obtain ⟨offset, small, isValid, index, member, exceeds⟩ := indivisible size some below
  refine ⟨offset, small, ?_, index, ?_, exceeds⟩
  · simp [spreadValid, Nat.mod_eq_of_lt (small.trans below), small.trans below, isValid]
  · exact mem_spread.mpr ⟨0, Nat.one_pos, index, member, by simp⟩

section Partition

variable (tiling : Tiling period base valid) (positive : 0 < period) (divides : period ∣ total)
include tiling positive divides

theorem partition : Partition (translates base valid total) total := by
  constructor
  · rw [translates, List.pairwise_map]
    refine (List.nodup_range.filter valid).pairwise_of_forall_ne ?_
    intro offset member other otherMember distinct
    rw [List.disjoint_left]
    intro cell inTile inOther
    obtain ⟨index, inBase, rfl⟩ := List.mem_map.mp inTile
    obtain ⟨second, otherInBase, sum⟩ := List.mem_map.mp inOther
    exact distinct (tiling.unique offset other (List.mem_filter.mp member).2
      (List.mem_filter.mp otherMember).2 index inBase second otherInBase sum.symm)
  · intro cell
    constructor
    · rintro ⟨_, isTile, inTile⟩
      obtain ⟨offset, below, isValid, rfl⟩ := mem_translates.mp isTile
      obtain ⟨index, member, rfl⟩ := List.mem_map.mp inTile
      obtain ⟨count, rfl⟩ := divides
      rw [Nat.mul_comm, ← Nat.div_lt_iff_lt_mul positive] at below ⊢
      rw [tiling.block offset isValid index member]
      exact below
    · intro below
      obtain ⟨offset, isValid, index, member, rfl⟩ := tiling.covers cell
      exact ⟨_, mem_translates.mpr ⟨offset, by omega, isValid, rfl⟩, List.mem_map_of_mem member⟩

/-- Offsets that are cut to a word before they are checked still give a partition
exactly when none is cut, or the word is itself made of whole periods. -/
theorem partition_iff (indivisible : Indivisible period base valid) (small : period ≤ word) :
    Partition (translates base (fun i => valid (i % word)) total) total ↔
      total ≤ word ∨ period ∣ word := by
  constructor
  · intro parts
    by_contra wrong
    obtain ⟨beyond, broken⟩ := not_or.mp wrong
    have rest := Nat.mod_lt word positive
    have split := Nat.div_add_mod word period
    -- The last tile that begins before the cut and ends behind it meets another one.
    obtain ⟨offset, less, isValid, index, member, exceeds⟩ :=
      indivisible (word % period) (Nat.pos_of_ne_zero fun whole =>
        broken (Nat.dvd_of_mod_eq_zero whole)) rest
    have below := tiling.small positive member
    obtain ⟨other, otherValid, second, otherMember, sum⟩ :=
      tiling.covers (offset + index - word % period)
    have before : valid ((period * (word / period) + offset) % word) = true := by
      rw [Nat.mod_eq_of_lt (by omega), ← tiling.periodic, Nat.mul_add_mod, tiling.periodic]
      exact isValid
    have behind : valid ((word + other) % word) = true := by
      rw [Nat.add_mod_left, Nat.mod_eq_of_lt (by omega)]
      exact otherValid
    have inside := (parts.covers _).mp ⟨_, mem_translates.mpr
      ⟨_, by omega, before, rfl⟩, List.mem_map_of_mem member⟩
    have apart := @List.Pairwise.forall _ _ _ ⟨fun _ _ => List.Disjoint.symm⟩
      (List.pairwise_map.mp parts.disjoint)
      _ (List.mem_filter.mpr ⟨List.mem_range.mpr (by omega), before⟩)
      _ (List.mem_filter.mpr ⟨List.mem_range.mpr (by omega), behind⟩) (by omega)
    refine apart (List.mem_map_of_mem member) (List.mem_map.mpr ⟨second, otherMember, ?_⟩)
    omega
  · intro uncut
    have same : translates base (fun i => valid (i % word)) total =
        translates base valid total := by
      rw [translates, translates]
      congr 1
      refine List.filter_congr fun i member => ?_
      rcases uncut with short | whole
      · rw [Nat.mod_eq_of_lt ((List.mem_range.mp member).trans_le short)]
      · exact (tiling.widen whole).periodic i
    rw [same]
    exact tiling.partition positive divides

end Partition

end Tiling

end ModelOS.Data
