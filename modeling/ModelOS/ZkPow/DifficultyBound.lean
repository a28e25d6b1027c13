import ModelOS.BlockChain.Difficulty
import ModelOS.ZkPow.ProofMalleability

namespace ModelOS.ZkPow

open BlockChain Data

/-! Indices and sizes are 64-bit words; a panic is an error. -/

namespace MiningConfiguration

/-- The size of a pattern is a 32-bit product. -/
def h (config : MiningConfiguration) : UInt64 :=
  (UInt32.ofNat config.rowsPattern.size).toUInt64

def w (config : MiningConfiguration) : UInt64 :=
  (UInt32.ofNat config.colsPattern.size).toUInt64

def dotProductLength (config : MiningConfiguration) : UInt64 :=
  let commonDim := config.commonDim.toUInt64
  commonDim - commonDim % config.rank.toUInt64

end MiningConfiguration

def PeriodicPattern.max (pattern : PeriodicPattern) : UInt32 :=
  UInt32.ofNat (pattern.toList.foldl Nat.max 0)

def MoEParams.expertStartOffset (moe : MoEParams) : UInt32 :=
  if moe.expertIdx = 0 then 0 else moe.routingOffsets.getD (moe.expertIdx.toNat - 1) 0

def windows (holds : UInt32 → UInt32 → Bool) (values : List UInt32) : Bool :=
  (values.zipWith holds values.tail).all id

namespace PublicProofParams

def aInnerIndices (params : PublicProofParams) : List UInt32 :=
  params.miningConfig.rowsPattern.toList.map fun i => UInt32.ofNat i + params.tRows

def moeSanityCheck (params : PublicProofParams) (moe : MoEParams)
    (moeConfig : MoEConfig) : Except String Unit := do
  let e := moeConfig.e
  let topK := moeConfig.topK
  require (0 < e) "number of experts e must be > 0 in the MoE setting"
  require (0 < topK) "top_k must be > 0 in the MoE setting"
  require (e.toNat ≤ maxNumExperts) ("number of experts " ++ toString e ++ " exceeds maximum 1024")
  require (e.toNat = moe.routingOffsets.length)
    ("weight and routing offsets should have the same length, " ++ "equal to the number of experts")
  require (topK < e) "top_k should be < number of experts"
  require (moe.expertIdx < e) "expert_idx should be < number of experts"
  let numRoutingEntries := params.m.toNat * topK.toNat
  require (numRoutingEntries < 2 ^ 32) "m * top_k overflows u32"
  let last := (moe.routingOffsets.getLastD 0).toNat
  require (last = numRoutingEntries)
    ("ensure_eq failed: The last routing offset should be equal to the total " ++
      "number of routing entries (m*top_k=" ++ toString numRoutingEntries ++
      ") || left = " ++ toString last ++ ", right = " ++ toString numRoutingEntries)
  require (windows (· ≤ ·) moe.routingOffsets)
    "The routing offsets must be monotonically non-decreasing"
  require (windows (fun low high => high - low ≤ params.m) moe.routingOffsets)
    "One expert holds at most all m tokens."
  require (moe.routingOffsets.headD 0 ≤ params.m)
    ("The first routing offset should be <= m since expert 0 can hold at most " ++ "m tokens")
  require (params.n.toNat * e.toNat ≤ 2 ^ 24)
    "Total number of columns across all experts must fit in 24 bits"
  let start := moe.expertStartOffset.toNat
  let nextStart := (moe.routingOffsets.getD moe.expertIdx.toNat 0).toNat
  params.aInnerIndices.forM fun inner => do
    let absIdx := start + inner.toNat
    let routing := "routing index " ++ toString absIdx ++ " (expert offset " ++
      toString start ++ " + inner " ++ toString inner ++ ") falls in the "
    require (absIdx < numRoutingEntries) (routing ++
      "padding region (real routing entries " ++ toString numRoutingEntries ++ ")")
    require (absIdx < nextStart) (routing ++
      "next expert's region (next expert offset " ++ toString nextStart ++ ")")
  require (moe.outerIndices.length = params.aInnerIndices.length)
    "outer_indices length must match a_inner_indices length"
  require (windows (· < ·) moe.outerIndices) "outer_indices must be sorted with no duplicates"
  moe.outerIndices.forM fun outerIndex =>
    require (outerIndex < params.m) "outer indices must be <= m"

def saturating (value : Nat) : Nat :=
  min value (2 ^ 64 - 1)

def isPowerOfTwo (value : Nat) : Bool :=
  value = 2 ^ value.log2

end PublicProofParams

open PublicProofParams in
def publicParamsSanityCheck (params : PublicProofParams) : Except String Unit := do
  let config := params.miningConfig
  let k := config.commonDim.toUInt64
  let r := config.rank.toUInt64
  let h := config.h
  let w := config.w
  require (r ≠ 0) "attempt to calculate the remainder with a divisor of zero"
  let dotProductLen := config.dotProductLength
  let workerInputSize :=
    saturating (saturating (h.toNat + w.toNat) * dotProductLen.toNat)
  let dims := " || k=" ++ toString k ++ " r=" ++ toString r
  let tile := " || h=" ++ toString h ++ " w=" ++ toString w
  require (isPowerOfTwo r.toNat ∧ 32 ≤ r ∧ r ≤ 1024) ("Rank must be 2^5..2^10 || r=" ++ toString r)
  require (r % 16 = 0) ("r must be divisible by 16 || r=" ++ toString r)
  require (k ≤ 65536) ("k must be <= 2^16 || k=" ++ toString k)
  require (k % 64 = 0) ("k must be divisible by 64 || k=" ++ toString k)
  require (k ≤ 4 * r * r) ("k must be no more than 4r^2" ++ dims)
  require (16 * r ≤ k) ("k must be >= 16r" ++ dims)
  require (1024 ≤ k) ("k must be >= 1024 || k=" ++ toString k)
  require (h % 2 = 0 ∧ w % 2 = 0) ("Inner hash tile dimensions must be divisible by 2" ++ tile)
  require (32 ≤ h * w) ("Inner hash size must be >= 32" ++ tile)
  require (h * w ≤ 256) ("Inner hash size must be <= 256" ++ tile)
  require (dotProductLen % 8 = 0) ("dot_product_length must be divisible by DWORD_SIZE=8 || got " ++
      toString dotProductLen)
  require (params.m ≤ 16777216) ("m must be <= 2^24 || m=" ++ toString params.m)
  require (params.n ≤ 16777216) ("n must be <= 2^24 || n=" ++ toString params.n)
  require (workerInputSize ≤ 2 ^ 22) ("Worker input supported up to 4 MiB, got " ++
    toString workerInputSize ++ " bytes")
  let rmax := config.rowsPattern.max
  let cmax := config.colsPattern.max
  require (params.tRows + rmax < params.m) ("t_rows=" ++ toString params.tRows ++
    " + pattern max=" ++ toString rmax ++ " must be < m=" ++ toString params.m)
  require (params.tCols + cmax < params.n) ("t_cols=" ++ toString params.tCols ++
    " + pattern max=" ++ toString cmax ++ " must be < n=" ++ toString params.n)
  require (config.moe.isSome = params.moe.isSome)
    ("ensure_eq failed: mining_config.moe and public params moe must both be present " ++
      "or both absent || left = " ++ toString config.moe.isSome ++ ", right = " ++
      toString params.moe.isSome)
  match params.moe, config.moe with
  | some moe, some moeConfig => moeSanityCheck params moe moeConfig
  | _, _ => return

def nbitsToDifficulty (nbits : UInt32) : BitVec 256 :=
  let exponent := (nbits >>> 24).toNat
  let mantissa := nbits &&& 0x00ffffff
  if mantissa = 0 ∨ exponent = 0 then 0
  else if mantissa &&& 0x00800000 ≠ 0 then 0
  else
    let target := BitVec.ofNat 256 mantissa.toNat
    if exponent ≤ 3 then target >>> (8 * (3 - exponent))
    else target <<< (8 * (exponent - 3))

def extractDifficultyBound (nbits : UInt32) (config : MiningConfiguration) : BitVec 256 :=
  let targetDifficulty := nbitsToDifficulty nbits
  let tileSize := config.h * config.w
  let adjustment := BitVec.ofNat 256 (tileSize * config.dotProductLength).toNat
  if BitVec.allOnes 256 / adjustment < targetDifficulty then BitVec.allOnes 256
  else targetDifficulty * adjustment

/-- The state of an attempt, with the number of multiplications so far. -/
structure JackpotRun where
  jackpot : Nat × Nat → Int32
  jackpotMsg : Nat → UInt32
  multiplyAdds : Nat

section Jackpot

variable (secretA secretB noiseA noiseB : Nat → Nat → Int8)

def multiplyAdd (u v : Nat) (run : JackpotRun) (l : Nat) : JackpotRun :=
  let product := ((secretA u l).toInt32 + (noiseA u l).toInt32) *
    ((secretB v l).toInt32 + (noiseB v l).toInt32)
  { run with
    jackpot := Function.update run.jackpot (u, v) (run.jackpot (u, v) + product)
    multiplyAdds := run.multiplyAdds + 1 }

def jackpotTile (h w r : Nat) (run : JackpotRun) (ll : Nat) : JackpotRun :=
  let run := (List.range h).foldl (fun run u => (List.range w).foldl (fun run v =>
    (List.range' (ll - r) r).foldl (multiplyAdd secretA secretB noiseA noiseB u v) run) run) run
  let xoredTile := (List.range h ×ˢ List.range w).foldl
    (fun a cell => a ^^^ (run.jackpot cell).toUInt32) 0
  let tid := (ll / r - 1) % 16
  let msg := run.jackpotMsg tid
  { run with
    jackpotMsg := Function.update run.jackpotMsg tid
      ((msg <<< 13 ||| msg >>> 19) ^^^ xoredTile) }

def computeJackpotDims (h w k r : Nat) : JackpotRun :=
  (List.range' r (k / r) r).foldl
    (jackpotTile secretA secretB noiseA noiseB h w r) ⟨fun _ => 0, fun _ => 0, 0⟩

theorem foldl_adds {step : σ → α → σ} (measure : σ → Nat)
    (each : ∀ state item, measure (step state item) = measure state + cost)
    (list : List α) (state : σ) :
    measure (list.foldl step state) = measure state + list.length * cost := by
  induction list generalizing state with
  | nil => rw [List.foldl_nil, List.length_nil, Nat.zero_mul, Nat.add_zero]
  | cons item rest ih =>
    rw [List.foldl_cons, ih, each, List.length_cons, Nat.succ_mul, Nat.add_assoc, Nat.add_comm cost]

theorem multiplyAdds_computeJackpotDims (h w k r : Nat) :
    (computeJackpotDims secretA secretB noiseA noiseB h w k r).multiplyAdds =
      h * w * (k - k % r) := by
  have tile (run : JackpotRun) (ll : Nat) :
      (jackpotTile secretA secretB noiseA noiseB h w r run ll).multiplyAdds =
        run.multiplyAdds + h * (w * r) := by
    let count := JackpotRun.multiplyAdds
    refine (foldl_adds count (fun run u => foldl_adds count (fun run v =>
      foldl_adds count (fun _ _ => rfl) _ run) _ run) _ run).trans ?_
    simp only [List.length_range, List.length_range', Nat.mul_one, count]
  rw [computeJackpotDims, foldl_adds _ tile, List.length_range', Nat.zero_add,
    ← Nat.div_mul_self_eq_mod_sub_self]
  ring

end Jackpot

theorem toNat_nbitsToDifficulty (positive : 0 < compactToBig bits)
    (limited : compactToBig bits < 2 ^ 256) :
    (nbitsToDifficulty bits).toNat = compactToBig bits := by
  have unsigned : bits &&& 0x00800000 = 0 := by
    by_contra negative
    rw [compactToBig, if_pos negative] at positive
    exact not_lt_of_ge (neg_nonpos.mpr (by split <;> exact Int.natCast_nonneg _)) positive
  have masks : bits &&& 0x00ffffff = bits &&& 0x007fffff := by
    apply UInt32.toBitVec_inj.mp
    change bits.toBitVec &&& (0x007fffff#32 ||| 0x00800000#32) = _
    rw [BitVec.and_or_distrib_left]
    exact (congrArg _ (congrArg UInt32.toBitVec unsigned)).trans BitVec.or_zero
  have inner : bits &&& 0x007fffff &&& 0x00800000 = 0 := by
    rw [UInt32.and_assoc]
    exact UInt32.and_zero
  have short : (bits &&& 0x007fffff).toNat < 2 ^ 23 := by
    rw [UInt32.toNat_and]
    exact Nat.and_lt_two_pow _ (by decide)
  rw [compactToBig, if_neg (not_not.mpr unsigned)] at positive limited ⊢
  rw [nbitsToDifficulty, masks, if_neg ?_, if_neg (not_not.mpr inner)]
  · split
    · rw [BitVec.toNat_ushiftRight, BitVec.toNat_ofNat, Nat.mod_eq_of_lt (by omega)]
    · next large =>
      rw [if_neg large] at limited
      have fits : (bits &&& 0x007fffff).toNat < 2 ^ 256 := by omega
      rw [BitVec.toNat_shiftLeft, BitVec.toNat_ofNat, Nat.mod_eq_of_lt fits,
        Nat.mod_eq_of_lt (by exact_mod_cast limited)]
  · rintro (zero | zero)
    · simp [zero] at positive
    · simp only [zero, Nat.zero_le, if_true, Nat.shiftRight_eq_div_pow] at positive
      omega

/-- What the sanity check says about the size of an attempt. -/
theorem publicParamsSanityCheck_size
    (sane : publicParamsSanityCheck params = .ok ()) :
    let config := params.miningConfig
    config.dotProductLength.toNat =
        config.commonDim.toNat - config.commonDim.toNat % config.rank.toNat ∧
      0 < config.dotProductLength.toNat ∧ config.dotProductLength.toNat ≤ 2 ^ 16 ∧
      (config.h * config.w).toNat = config.h.toNat * config.w.toNat ∧
      32 ≤ config.h.toNat * config.w.toNat ∧ config.h.toNat * config.w.toNat ≤ 256 := by
  intro config
  simp only [publicParamsSanityCheck, bind_eq_ok, require_eq_ok] at sane
  obtain ⟨_, _, _, ⟨_, positive, ranks⟩, _, _, _, dims, _, _, _, _, _, _, _, least, _, _,
    _, low, _, high, _⟩ := sane
  rw [UInt64.le_iff_toNat_le] at positive ranks dims least low high
  have length : config.dotProductLength.toNat =
      config.commonDim.toNat - config.commonDim.toNat % config.rank.toNat := by
    rw [MiningConfiguration.dotProductLength, UInt64.toNat_sub_of_le _ _
      (UInt64.le_iff_toNat_le.mpr (UInt64.toNat_mod _ _ ▸ Nat.mod_le _ _)), UInt64.toNat_mod]
    rfl
  have tile : (config.h * config.w).toNat = config.h.toNat * config.w.toNat :=
    Nat.mod_eq_of_lt (lt_of_lt_of_le
      (Nat.mul_lt_mul'' (UInt32.toNat_lt _) (UInt32.toNat_lt _)) (by decide))
  have remainder : config.commonDim.toNat % config.rank.toNat < config.rank.toNat :=
    Nat.mod_lt _ (by exact lt_of_lt_of_le (by decide) positive)
  refine ⟨length, ?_, ?_, tile, tile ▸ low, tile ▸ high⟩
  · have := ranks.trans least
    rw [length]
    exact Nat.sub_pos_of_lt (remainder.trans_le this)
  · rw [length]
    exact (Nat.sub_le _ _).trans dims

theorem le_period (below : size ≤ minStride)
    (decoded : decodeDim factorByte lengthByte minStride isDone = .ok (dim, ends)) :
    size * dim.length ≤ dim.period := by
  obtain ⟨factor, some, stride, _⟩ := decodeDim_eq_ok decoded
  rw [PatternDim.period, stride]
  exact Nat.mul_le_mul_right _ (below.trans (Nat.le_mul_of_pos_left _ some))

theorem toNat_size
    (decoded : PeriodicPattern.fromBytes data = .ok pattern) :
    (UInt32.ofNat pattern.size).toUInt64.toNat = pattern.size := by
  obtain ⟨_, _, _, _, _, _, _, _, _, _, first, second, third⟩ :=
    PeriodicPattern.fromBytes_eq_ok decoded
  have small : 1 * pattern.first.length * pattern.second.length * pattern.third.length ≤ 2 ^ 24 :=
    (le_period (le_period (le_period le_rfl first) second) third).trans
      (decodeDim_eq_ok third).choose_spec.2.2.2.2
  have size : pattern.size < 2 ^ 32 := by
    simp only [PeriodicPattern.size, PeriodicPattern.shape, List.map_cons, List.map_nil,
      List.prod_cons, List.prod_nil, ← Nat.mul_assoc, Nat.mul_one, Nat.one_mul] at small ⊢
    omega
  exact UInt32.toNat_ofNat_of_lt' size

/-- One price per multiplication: the bound is the target times the multiplications of an
attempt, whatever the configuration.  Nothing wraps, the sizes of decoded patterns
included. -/
theorem extractDifficultyBound_eq {network : Network} {bits : UInt32}
    {params : PublicProofParams} (listed : network ∈ [.mainNet, .testNet, .testNet2])
    (positive : 0 < compactToBig bits) (limited : compactToBig bits ≤ network.params.powLimit)
    (sane : publicParamsSanityCheck params = .ok ())
    (secretA secretB noiseA noiseB : Nat → Nat → Int8) :
    let config := params.miningConfig
    let multiplyAdds := (computeJackpotDims secretA secretB noiseA noiseB config.h.toNat
      config.w.toNat config.commonDim.toNat config.rank.toNat).multiplyAdds
    (nbitsToDifficulty bits).toNat = compactToBig bits ∧
      multiplyAdds = config.h.toNat * config.w.toNat * config.dotProductLength.toNat ∧
      (extractDifficultyBound bits config).toNat = (nbitsToDifficulty bits).toNat * multiplyAdds ∧
      ((extractDifficultyBound bits config).toNat / multiplyAdds : Nat) = compactToBig bits ∧
      ∀ data, (PeriodicPattern.fromBytes data = .ok config.rowsPattern →
          config.h.toNat = config.rowsPattern.size) ∧
        (PeriodicPattern.fromBytes data = .ok config.colsPattern →
          config.w.toNat = config.colsPattern.size) := by
  intro config multiplyAdds
  obtain ⟨length, some, short, tile, low, high⟩ := publicParamsSanityCheck_size sane
  have below : compactToBig bits < 2 ^ 208 := by
    simp only [List.mem_cons, List.not_mem_nil, or_false] at listed
    rcases listed with rfl | rfl | rfl <;> exact Int.lt_of_le_sub_one limited
  have target := toNat_nbitsToDifficulty positive (below.trans (by decide))
  have count : multiplyAdds = config.h.toNat * config.w.toNat * config.dotProductLength.toNat := by
    rw [length]
    exact multiplyAdds_computeJackpotDims ..
  have work : 0 < multiplyAdds ∧ multiplyAdds ≤ 2 ^ 24 := by
    rw [count]
    exact ⟨Nat.mul_pos (Nat.lt_of_lt_of_le (by decide) low) some,
      (Nat.mul_le_mul high short).trans (by decide)⟩
  have bound : (extractDifficultyBound bits config).toNat =
      (nbitsToDifficulty bits).toNat * multiplyAdds := by
    have word : (config.h * config.w * config.dotProductLength).toNat = multiplyAdds := by
      rw [UInt64.toNat_mul, tile, ← count, Nat.mod_eq_of_lt (by omega)]
    have adjustment : (BitVec.ofNat 256 multiplyAdds).toNat = multiplyAdds :=
      Nat.mod_eq_of_lt (by omega)
    have fits : (nbitsToDifficulty bits).toNat * multiplyAdds ≤ 2 ^ 256 - 1 :=
      (Nat.mul_le_mul (show _ ≤ 2 ^ 208 by omega) work.2).trans (by decide)
    have easy : ¬ BitVec.allOnes 256 / BitVec.ofNat 256 multiplyAdds < nbitsToDifficulty bits := by
      rw [BitVec.lt_def, BitVec.toNat_udiv, BitVec.toNat_allOnes, adjustment, not_lt]
      exact (Nat.le_div_iff_mul_le work.1).mpr fits
    rw [extractDifficultyBound, word, if_neg easy, BitVec.toNat_mul, adjustment,
      Nat.mod_eq_of_lt (by omega)]
  refine ⟨target, count, bound, ?_, ?_⟩
  · rw [bound, Nat.mul_div_cancel _ work.1, target]
  · exact fun data => ⟨fun decoded => toNat_size decoded, fun decoded => toNat_size decoded⟩

theorem extractDifficultyBound_dense : publicParamsSanityCheck TopKExample.params = .ok () ∧
      (extractDifficultyBound 0x1b00ffff TopKExample.params.miningConfig).toNat =
        0xffff * 2 ^ 192 * (4 * 16 * 2048) := by
  have sane : publicParamsSanityCheck TopKExample.params = .ok () := by decide
  have bound := (extractDifficultyBound_eq (show Network.mainNet ∈ _ from .head _)
    (show 0 < compactToBig 0x1b00ffff by decide) (by decide) sane (fun _ _ => 0)
    (fun _ _ => 0) (fun _ _ => 0) fun _ _ => 0).2
  exact ⟨sane, (bound.1 ▸ bound.2.1).trans (by decide)⟩

end ModelOS.ZkPow
