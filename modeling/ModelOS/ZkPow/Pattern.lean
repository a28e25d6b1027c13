import ModelOS.Data.Bytes
import ModelOS.Data.Checked

namespace ModelOS.ZkPow

open Data

/-! Periodic index patterns: generalised arithmetic progressions in three
dimensions.  Periods are at most `2 ^ 24`, so 32-bit products never wrap. -/

structure PatternDim where
  stride : Nat
  length : Nat
deriving DecidableEq

def PatternDim.period (dim : PatternDim) : Nat :=
  dim.stride * dim.length

structure PeriodicPattern where
  first : PatternDim
  second : PatternDim
  third : PatternDim
deriving DecidableEq

/-- Decode one dimension above those of period `minStride`; the flag says that
an earlier dimension already had length one. -/
def decodeDim (factorByte lengthByte : UInt8) (minStride : Nat)
    (isDone : Bool) : Except String (PatternDim × Bool) := do
  let factor := 1 + factorByte.toNat
  let length := 1 + lengthByte.toNat
  let ends := decide (length = 1) || isDone
  require (ends → factor = 1 ∧ length = 1) "Using non-canonical representation"
  require (¬ ends → ¬ (factor ≤ 1 ∧ minStride ≠ 1)) "A single stride must not be broken"
  require (minStride ≤ 2 ^ 24 / (factor * length)) "Pattern must have period <= 2^24"
  return (⟨factor * minStride, length⟩, ends)

def encodeDim (dim : PatternDim) (minStride : Nat) : Bytes :=
  [UInt8.ofNat (dim.stride / minStride - 1), UInt8.ofNat (dim.length - 1)]

namespace PeriodicPattern

def shape (pattern : PeriodicPattern) : List PatternDim :=
  [pattern.first, pattern.second, pattern.third]

def fromBytes : Bytes → Except String PeriodicPattern
  | [factor0, length0, factor1, length1, factor2, length2] => do
      let (first, isDone) ← decodeDim factor0 length0 1 false
      let (second, isDone) ← decodeDim factor1 length1 first.period isDone
      let (third, _) ← decodeDim factor2 length2 second.period isDone
      return ⟨first, second, third⟩
  | data => .error ("Expected 6 bytes, got " ++ toString data.length)

def toBytes (pattern : PeriodicPattern) : Bytes :=
  encodeDim pattern.first 1 ++ encodeDim pattern.second pattern.first.period ++
    encodeDim pattern.third pattern.second.period

def isValid (pattern : PeriodicPattern) : Bool :=
  fromBytes pattern.toBytes = .ok pattern

def period (pattern : PeriodicPattern) : Nat :=
  pattern.third.period

def size (pattern : PeriodicPattern) : Nat :=
  (pattern.shape.map PatternDim.length).prod

def toList (pattern : PeriodicPattern) : List Nat :=
  pattern.shape.foldl (fun indices dim =>
    (List.range dim.length).flatMap fun i =>
      indices.map fun r => r + i * dim.stride) [0]

/-- The offset is reduced by each period in turn, from the outermost one on,
and must stay below every stride. -/
def offsetIsValid (pattern : PeriodicPattern) (offset : Nat) : Bool :=
  let third := offset % pattern.third.period
  let second := third % pattern.second.period
  let first := second % pattern.first.period
  decide (third < pattern.third.stride) && decide (second < pattern.second.stride) &&
    decide (first < pattern.first.stride)

end PeriodicPattern

theorem decodeDim_eq_ok
    (decoded : decodeDim factorByte lengthByte minStride isDone = .ok (dim, ends)) :
    ∃ factor, 0 < factor ∧ dim.stride = factor * minStride ∧ 0 < dim.length ∧
      (dim.length = 1 → factor = 1) ∧ dim.period ≤ 2 ^ 24 := by
  simp only [decodeDim, bind_eq_ok, require_eq_ok, pure_eq_ok, Prod.mk.injEq] at decoded
  obtain ⟨_, ends, _, _, _, small, rfl, _⟩ := decoded
  refine ⟨1 + factorByte.toNat, Nat.add_pos_left Nat.one_pos _, rfl,
    Nat.add_pos_left Nat.one_pos _, ?_, ?_⟩
  · intro one
    have short : 1 + lengthByte.toNat = 1 := one
    exact (ends (by rw [decide_eq_true short, Bool.true_or])).1
  · have fits := (Nat.le_div_iff_mul_le (Nat.mul_pos (Nat.add_pos_left Nat.one_pos _)
      (Nat.add_pos_left Nat.one_pos _))).mp small
    rw [PatternDim.period]
    calc (1 + factorByte.toNat) * minStride * (1 + lengthByte.toNat) =
        minStride * ((1 + factorByte.toNat) * (1 + lengthByte.toNat)) := by ring
      _ ≤ 2 ^ 24 := fits

theorem encodeDim_decodeDim (positive : 0 < minStride)
    (decoded : decodeDim factorByte lengthByte minStride isDone = .ok (dim, ends)) :
    encodeDim dim minStride = [factorByte, lengthByte] ∧ 0 < dim.period := by
  simp only [decodeDim, bind_eq_ok, pure_eq_ok, Prod.mk.injEq] at decoded
  obtain ⟨_, _, _, _, _, _, rfl, _⟩ := decoded
  constructor
  · simp only [encodeDim, Nat.mul_div_cancel _ positive, Nat.add_sub_cancel_left, UInt8.ofNat_toNat]
  · exact Nat.mul_pos (Nat.mul_pos (Nat.add_pos_left Nat.one_pos _) positive)
      (Nat.add_pos_left Nat.one_pos _)

variable {pattern : PeriodicPattern}

theorem PeriodicPattern.fromBytes_eq_ok (decoded : fromBytes data = .ok pattern) :
    ∃ factor0 length0 factor1 length1 factor2 length2, ∃ firstDone secondDone thirdDone,
      data = [factor0, length0, factor1, length1, factor2, length2] ∧
      decodeDim factor0 length0 1 false = .ok (pattern.first, firstDone) ∧
      decodeDim factor1 length1 pattern.first.period firstDone = .ok (pattern.second, secondDone) ∧
      decodeDim factor2 length2 pattern.second.period secondDone =
        .ok (pattern.third, thirdDone) := by
  unfold fromBytes at decoded
  split at decoded
  · simp only [bind_eq_ok, pure_eq_ok, Prod.exists] at decoded
    obtain ⟨first, firstDone, firstDecoded, second, secondDone, secondDecoded,
      third, thirdDone, thirdDecoded, rfl⟩ := decoded
    exact ⟨_, _, _, _, _, _, _, _, _, rfl, firstDecoded, secondDecoded, thirdDecoded⟩
  · cases decoded

theorem PeriodicPattern.toBytes_fromBytes (decoded : fromBytes data = .ok pattern) :
    pattern.toBytes = data := by
  obtain ⟨_, _, _, _, _, _, _, _, _, rfl, firstDecoded, secondDecoded, thirdDecoded⟩ :=
    fromBytes_eq_ok decoded
  obtain ⟨firstBytes, firstPositive⟩ := encodeDim_decodeDim Nat.zero_lt_one firstDecoded
  obtain ⟨secondBytes, secondPositive⟩ := encodeDim_decodeDim firstPositive secondDecoded
  obtain ⟨thirdBytes, _⟩ := encodeDim_decodeDim secondPositive thirdDecoded
  simp only [toBytes, firstBytes, secondBytes, thirdBytes]
  rfl

@[simp] theorem PeriodicPattern.length_toBytes (pattern : PeriodicPattern) :
    pattern.toBytes.length = 6 :=
  rfl

end ModelOS.ZkPow
