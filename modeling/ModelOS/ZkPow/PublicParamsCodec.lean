import ModelOS.ZkPow.PublicParams

namespace ModelOS.ZkPow

open Data

/-! Encoding what was decoded.  Without experts the decoder drops `top_k`, so
the encoder writes two zero bytes in its place. -/

def writtenTopK (data : Bytes) : Bytes :=
  if readU16 data 20 = 0 then [0, 0] else slice data 22 2

namespace MiningConfiguration

variable {config : MiningConfiguration} {data : Bytes}

theorem fromBytes_ok : fromBytes data = .ok config ↔
      data.length = 52 ∧ readU16 data 6 = 0 ∧
        PeriodicPattern.fromBytes (slice data 8 6) = .ok config.rowsPattern ∧
        PeriodicPattern.fromBytes (slice data 14 6) = .ok config.colsPattern ∧
        (∀ byte ∈ slice data 24 28, byte = 0) ∧
        config.commonDim = readU32 data 0 ∧ config.rank = readU16 data 4 ∧
        config.moe = if readU16 data 20 = 0 then none
          else some ⟨readU16 data 20, readU16 data 22⟩ := by
  obtain ⟨commonDim, rank, mmaType, rowsPattern, colsPattern, moe⟩ := config
  cases mmaType
  simp only [fromBytes, bind_eq_ok, require_eq_ok, pure_eq_ok, mk.injEq, exists_const, true_and]
  constructor
  · rintro ⟨length, mmaType, rows, rowsDecoded, cols, colsDecoded, padding, rfl, rfl, rfl, rfl, rfl⟩
    exact ⟨length, mmaType, rowsDecoded, colsDecoded, padding, rfl, rfl, rfl⟩
  · rintro ⟨length, mmaType, rowsDecoded, colsDecoded, padding, rfl, rfl, rfl⟩
    exact ⟨length, mmaType, _, rowsDecoded, _, colsDecoded, padding, rfl, rfl, rfl, rfl, rfl⟩

theorem trailerBytes_fromBytes (decoded : fromBytes data = .ok config) :
    config.trailerBytes = slice data 20 2 ++ writtenTopK data ++ slice data 24 28 := by
  obtain ⟨length, -, -, -, padding, -, -, moe⟩ := fromBytes_ok.mp decoded
  have zeroPadding : slice data 24 28 = List.replicate 28 0 :=
    List.eq_replicate_of_mem padding |>.trans (by rw [length_slice data 24 28 (by omega)])
  have expertBytes : leBytes 2 (readU16 data 20).toNat = slice data 20 2 :=
    leBytes_readU16 (by omega)
  rw [trailerBytes, moe, zeroPadding, writtenTopK]
  by_cases dense : readU16 data 20 = 0
  · rw [dense] at expertBytes
    rw [if_pos dense, if_pos dense, ← expertBytes]
    rfl
  · rw [if_neg dense, if_neg dense]
    simp only [expertBytes, leBytes_readU16 (show 22 + 2 ≤ data.length by omega)]

theorem toBytes_fromBytes (decoded : fromBytes data = .ok config) : config.toBytes =
      slice data 0 22 ++ writtenTopK data ++ slice data 24 28 := by
  obtain ⟨length, mmaType, rows, cols, -, commonDim, rank, -⟩ := fromBytes_ok.mp decoded
  have mmaBytes : leBytes 2 0 = slice data 6 2 := by
    rw [← leBytes_readU16 (by omega), mmaType]
    rfl
  rw [toBytes, trailerBytes_fromBytes decoded, commonDim, rank, mmaBytes,
    leBytes_readU32 (by omega), leBytes_readU16 (by omega), PeriodicPattern.toBytes_fromBytes rows,
    PeriodicPattern.toBytes_fromBytes cols]
  simp only [← List.append_assoc, slice_append_next, Nat.reduceAdd]

end MiningConfiguration

namespace PublicProofParams

theorem moeBytes_readMoEParams
    (length : moeData.length = 35 + 4 * numExperts + 4 * outerCount moeData numExperts) :
    moeBytes (readMoEParams moeData numExperts) = moeData := by
  have countByte : leBytes 1 (outerCount moeData numExperts) =
      slice moeData (2 + 4 * numExperts + 32) 1 := by
    have inside : 2 + 4 * numExperts + 32 < moeData.length := by omega
    rw [outerCount, slice, List.drop_eq_getElem_cons inside,
      List.getD_eq_getElem?_getD, List.getElem?_eq_getElem inside]
    simp only [Option.getD_some, leBytes, UInt8.ofNat_toNat, List.take_succ_cons, List.take_zero]
  simp only [moeBytes, readMoEParams, length_readU32s, countByte]
  rw [leBytes_readU16 (by omega), writeU32s_readU32s (by omega), writeU32s_readU32s (by omega),
    FixedBytes.bytes_copy _ (length_slice _ _ _ (by omega)),
    slice_append_next rfl, slice_append_next (by omega),
    slice_append_next (by omega), slice_append_next (by omega)]
  convert slice_length moeData using 2
  omega

theorem moeFromWireBytes_ok {moe : Option MoEParams} :
    moeFromWireBytes publicData config = .ok moe ↔
      (publicData.length = wireSize ∧ config.moe = none ∧ moe = none) ∨
      (publicData.length ≠ wireSize ∧ ∃ moeConfig,
        config.moe = some moeConfig ∧ moeConfig.e.toNat ≤ 1024 ∧
        outerCount (publicData.drop 164) moeConfig.e.toNat ≤ 128 ∧
        publicData.length = 199 + 4 * moeConfig.e.toNat +
          4 * outerCount (publicData.drop 164) moeConfig.e.toNat ∧
        moe = some (readMoEParams (publicData.drop 164) moeConfig.e.toNat)) := by
  unfold moeFromWireBytes
  by_cases dense : publicData.length = wireSize
  · rw [if_pos dense]
    simp only [bind_eq_ok, require_eq_ok, pure_eq_ok, exists_const, Option.isNone_iff_eq_none]
    constructor
    · rintro ⟨noConfig, rfl⟩
      exact .inl ⟨dense, noConfig, rfl⟩
    · rintro (⟨-, noConfig, rfl⟩ | ⟨long, -⟩)
      · exact ⟨noConfig, rfl⟩
      · exact absurd dense long
  · rw [if_neg dense]
    simp only [bind_eq_ok, require_eq_ok, present_eq_ok, pure_eq_ok, exists_const]
    constructor
    · rintro ⟨moeConfig, hasConfig, experts, -, count, length, rfl⟩
      exact .inr ⟨dense, moeConfig, hasConfig, experts, count,
        length.trans (by simp only [minMoEWireSize, routingOffsetBytes, wireSize]; ring), rfl⟩
    · rintro (⟨length, -⟩ | ⟨-, moeConfig, hasConfig, experts, count, length, rfl⟩)
      · exact absurd length dense
      · exact ⟨moeConfig, hasConfig, experts,
          by simp only [minMoEWireSize, routingOffsetBytes]; omega, count,
          length.trans (by simp only [minMoEWireSize, routingOffsetBytes, wireSize]; ring), rfl⟩

variable {header : IncompleteBlockHeader} {derivation : SeedDerivation} {params : PublicProofParams}

theorem fromWireBytes_ok : fromWireBytes header derivation data = .ok params ↔
      wireSize ≤ data.length ∧ MiningConfiguration.fromBytes (slice data 0 52) =
          .ok params.miningConfig ∧ moeFromWireBytes data params.miningConfig = .ok params.moe ∧
        params.miningConfig.rowsPattern.offsetIsValid params.tRows.toNat ∧
        params.miningConfig.colsPattern.offsetIsValid params.tCols.toNat ∧
        params.tRows < params.m ∧ params.tCols < params.n ∧
        params = { params with
          blockHeader := header
          seedDerivation := derivation
          hashA := .copy 32 (slice data 52 32)
          hashB := .copy 32 (slice data 84 32)
          hashJackpot := .copy 32 (slice data 116 32)
          m := readU32 data 148
          n := readU32 data 152
          tRows := readU32 data 156
          tCols := readU32 data 160 } := by
  simp only [fromWireBytes, bind_eq_ok, require_eq_ok, pure_eq_ok, exists_const]
  constructor
  · rintro ⟨length, config, configDecoded, moe, moeDecoded, rows, cols, rowsBelow, colsBelow, rfl⟩
    exact ⟨length, configDecoded, moeDecoded, rows, cols, rowsBelow, colsBelow, rfl⟩
  · rintro ⟨length, configDecoded, moeDecoded, rows, cols, rowsBelow, colsBelow, fields⟩
    rw [fields] at rows cols rowsBelow colsBelow
    exact ⟨length, _, configDecoded, _, moeDecoded, rows, cols, rowsBelow, colsBelow, fields.symm⟩

theorem coreBytes_fromWireBytes
    (decoded : fromWireBytes header derivation data = .ok params) : params.coreBytes =
      slice data 0 22 ++ writtenTopK data ++ slice data 24 140 := by
  obtain ⟨length, config, -, -, -, -, -, fields⟩ := fromWireBytes_ok.mp decoded
  rw [wireSize] at length
  have topK : writtenTopK (slice data 0 52) = writtenTopK data := by
    rw [writtenTopK, readU16_slice (by omega), slice_slice _ _ _ _ _ (by omega), ← writtenTopK]
  rw [coreBytes, MiningConfiguration.toBytes_fromBytes config, topK,
    slice_slice _ _ _ _ _ (by omega), slice_slice _ _ _ _ _ (by omega), fields]
  simp only [leBytes_readU32 (show 148 + 4 ≤ data.length by omega),
    leBytes_readU32 (show 152 + 4 ≤ data.length by omega),
    leBytes_readU32 (show 156 + 4 ≤ data.length by omega),
    leBytes_readU32 (show 160 + 4 ≤ data.length by omega),
    FixedBytes.bytes_copy _ (length_slice data 52 32 (by omega)),
    FixedBytes.bytes_copy _ (length_slice data 84 32 (by omega)),
    FixedBytes.bytes_copy _ (length_slice data 116 32 (by omega)),
    List.append_assoc, slice_append_next, Nat.reduceAdd]

def canonicalData (data : Bytes) : Bytes :=
  slice data 0 22 ++ writtenTopK data ++ data.drop 24

theorem toWireBytes_fromWireBytes (decoded : fromWireBytes header derivation data = .ok params) :
    params.toWireBytes = .ok (canonicalData data) := by
  obtain ⟨length, -, moeDecoded, -⟩ := fromWireBytes_ok.mp decoded
  rw [wireSize] at length
  have tail : data.drop 24 = slice data 24 140 ++ data.drop 164 := by
    have split := List.take_append_drop 140 (data.drop 24)
    rw [List.drop_drop] at split
    exact split.symm
  obtain ⟨exact164, noConfig, noMoE⟩ | ⟨-, config, hasConfig, experts, count,
    exactLength, hasMoE⟩ := moeFromWireBytes_ok.mp moeDecoded
  · rw [wireSize] at exact164
    rw [toWireBytes, noConfig, noMoE, canonicalData, tail,
      List.drop_eq_nil_of_le (by omega), List.append_nil, coreBytes_fromWireBytes decoded]
    rfl
  · have moeLength : (data.drop 164).length = 35 + 4 * config.e.toNat +
        4 * outerCount (data.drop 164) config.e.toNat := by
      rw [List.length_drop]
      omega
    rw [toWireBytes, hasConfig, hasMoE]
    simp only [bind_eq_ok, require_eq_ok, pure_eq_ok, exists_const]
    refine ⟨(length_readU32s _ _ _).trans_le count, length_readU32s _ _ _,
      (length_readU32s _ _ _).trans_le experts, ?_⟩
    rw [moeBytes_readMoEParams moeLength, coreBytes_fromWireBytes decoded, canonicalData, tail]
    simp only [List.append_assoc]

end PublicProofParams

/-- The trailer of a job with experts starts with a count other than zero. -/
def MiningConfiguration.Encodable (config : MiningConfiguration) : Prop :=
  config.rowsPattern.isValid ∧ config.colsPattern.isValid ∧
    ∀ moeConfig ∈ config.moe, moeConfig.e ≠ 0

theorem MiningConfiguration.length_trailerBytes (config : MiningConfiguration) :
    config.trailerBytes.length = 32 := by
  unfold trailerBytes
  split <;> simp

@[simp] theorem MiningConfiguration.length_toBytes
    (config : MiningConfiguration) : config.toBytes.length = 52 := by
  simp [toBytes, length_trailerBytes]

theorem MiningConfiguration.read_trailerBytes {config : MiningConfiguration}
    (experts : ∀ moeConfig ∈ config.moe, moeConfig.e ≠ 0) :
    (if readU16 config.trailerBytes 0 = 0 then none
      else some (MoEConfig.mk (readU16 config.trailerBytes 0)
        (readU16 config.trailerBytes 2))) = config.moe ∧
      ∀ byte ∈ slice config.trailerBytes 4 28, byte = 0 := by
  unfold trailerBytes
  cases hasMoE : config.moe with
  | none =>
    constructor
    · rfl
    · intro byte member
      exact (List.mem_replicate.mp (List.mem_of_mem_drop (List.mem_of_mem_take member))).2
  | some moeConfig =>
    have count : readU16 (leBytes 2 moeConfig.e.toNat ++
        leBytes 2 moeConfig.topK.toNat ++ List.replicate 28 0) 0 = moeConfig.e := by
      rw [List.append_assoc, readU16_leBytes]
    have topK : readU16 (leBytes 2 moeConfig.e.toNat ++
        leBytes 2 moeConfig.topK.toNat ++ List.replicate 28 0) 2 = moeConfig.topK := by
      rw [readU16, List.append_assoc, slice_skip (by simp), length_leBytes,
        slice_front (by simp), ofNat_leNat_leBytes_uint16]
    constructor
    · simp only [count, topK, if_neg (experts moeConfig hasMoE)]
    · intro byte member
      rw [slice_skip (by simp)] at member
      exact (List.mem_replicate.mp (List.mem_of_mem_drop (List.mem_of_mem_take member))).2

theorem MiningConfiguration.fromBytes_toBytes
    (encodable : config.Encodable) : fromBytes config.toBytes = .ok config := by
  obtain ⟨rowsValid, colsValid, experts⟩ := encodable
  obtain ⟨moe, padding⟩ := read_trailerBytes experts
  refine fromBytes_ok.mpr ⟨config.length_toBytes, ?_, ?_, ?_, ?_, ?_, ?_, ?_⟩
  all_goals simp only [toBytes, readU16, readU32, List.append_assoc, slice_skip,
      slice_front, length_leBytes, Nat.reduceSub, Nat.reduceLeDiff]
  · rfl
  · exact of_decide_eq_true rowsValid
  · exact of_decide_eq_true colsValid
  · exact padding
  · exact (ofNat_leNat_leBytes_uint32 _).symm
  · exact (ofNat_leNat_leBytes_uint16 _).symm
  · exact moe.symm

namespace PublicProofParams

/-- The experts' parameters are there exactly for a job with experts and have
the sizes the format allows. -/
def MatchingMoE : Option MoEConfig → Option MoEParams → Prop
  | none, none => True
  | some moeConfig, some moe =>
    moe.routingOffsets.length = moeConfig.e.toNat ∧ moeConfig.e.toNat ≤ maxNumExperts ∧
      moe.outerIndices.length ≤ maxOuterIndices
  | _, _ => False

structure WellFormed (params : PublicProofParams) : Prop where
  encodable : params.miningConfig.Encodable
  rowsOffset : params.miningConfig.rowsPattern.offsetIsValid params.tRows.toNat
  colsOffset : params.miningConfig.colsPattern.offsetIsValid params.tCols.toNat
  rowsBelow : params.tRows < params.m
  colsBelow : params.tCols < params.n
  matchingMoE : MatchingMoE params.miningConfig.moe params.moe

theorem readU32s_after_expertIdx (expertIdx : UInt16)
    (routingOffsets : List UInt32) (rest : Bytes) :
    readU32s (leBytes 2 expertIdx.toNat ++ writeU32s routingOffsets ++ rest) 2
      routingOffsets.length = routingOffsets := by
  have shifted := readU32s_append (leBytes 2 expertIdx.toNat)
    (writeU32s routingOffsets ++ rest) 0 routingOffsets.length
  rw [readU32s_writeU32s, ← List.append_assoc] at shifted
  exact shifted

theorem readMoEParams_moeBytes {moe : MoEParams}
    (count : moe.outerIndices.length ≤ maxOuterIndices) :
    outerCount (moeBytes moe) moe.routingOffsets.length = moe.outerIndices.length ∧
      readMoEParams (moeBytes moe) moe.routingOffsets.length = moe := by
  obtain ⟨expertIdx, routingOffsets, hashRouting, outerIndices⟩ := moe
  have countBound : outerIndices.length < 256 := Nat.lt_of_le_of_lt count (by decide)
  let front := leBytes 2 expertIdx.toNat ++ writeU32s routingOffsets
  let counter := UInt8.ofNat outerIndices.length
  let data := front ++ (hashRouting.bytes ++ counter :: writeU32s outerIndices)
  have frontLength : front.length = 2 + 4 * routingOffsets.length := by
    simp [front]
  have bytes : moeBytes ⟨expertIdx, routingOffsets, hashRouting, outerIndices⟩ = data := by
    simp [moeBytes, data, front, counter, leBytes]
  have counted : outerCount data routingOffsets.length = outerIndices.length := by
    simp only [outerCount, ← frontLength, List.getD_eq_getElem?_getD, data]
    rw [List.getElem?_append_right (by omega), Nat.add_sub_cancel_left,
      List.getElem?_append_right (by simp), hashRouting.length_eq]
    simp [counter, Nat.mod_eq_of_lt countBound]
  have index : readU16 data 0 = expertIdx := by
    simp only [data, front, List.append_assoc, readU16_leBytes]
  have offsets : readU32s data 2 routingOffsets.length = routingOffsets :=
    readU32s_after_expertIdx expertIdx routingOffsets _
  have routing : slice data (2 + 4 * routingOffsets.length) 32 = hashRouting.bytes := by
    rw [← frontLength, slice_skip le_rfl, Nat.sub_self, slice_front (by simp)]
  have outer : readU32s data (2 + 4 * routingOffsets.length + 33)
      outerIndices.length = outerIndices := by
    have shifted := readU32s_append (front ++ hashRouting.bytes ++ [counter])
      (writeU32s outerIndices ++ []) 0 outerIndices.length
    rw [readU32s_writeU32s] at shifted
    simpa [frontLength, Nat.add_assoc, data] using shifted
  rw [bytes]
  refine ⟨counted, ?_⟩
  rw [readMoEParams, counted, index, offsets, routing, outer, FixedBytes.copy_bytes]

@[simp] theorem length_coreBytes (params : PublicProofParams) : params.coreBytes.length = 164 := by
  simp [coreBytes]

theorem length_moeBytes (moe : MoEParams) : (moeBytes moe).length =
      35 + 4 * moe.routingOffsets.length + 4 * moe.outerIndices.length := by
  simp only [moeBytes, List.length_append, length_leBytes, length_writeU32s,
    FixedBytes.length_bytes]
  omega

theorem fromWireBytes_coreBytes {params : PublicProofParams} {tail : Bytes}
    (wellFormed : params.WellFormed)
    (moe : moeFromWireBytes (params.coreBytes ++ tail) params.miningConfig = .ok params.moe) :
    fromWireBytes params.blockHeader params.seedDerivation
      (params.coreBytes ++ tail) = .ok params := by
  refine fromWireBytes_ok.mpr ⟨?_, ?_, moe, wellFormed.rowsOffset,
    wellFormed.colsOffset, wellFormed.rowsBelow, wellFormed.colsBelow, ?_⟩
  · simp [wireSize]
  · simp only [coreBytes, List.append_assoc, slice_front (MiningConfiguration.length_toBytes _),
      MiningConfiguration.fromBytes_toBytes wellFormed.encodable]
  · simp only [coreBytes, readU32, List.append_assoc, slice_skip, slice_front,
      length_leBytes, FixedBytes.length_bytes,
      MiningConfiguration.length_toBytes, Nat.reduceSub, Nat.reduceLeDiff,
      FixedBytes.copy_bytes, ofNat_leNat_leBytes_uint32]

theorem fromWireBytes_toWireBytes (wellFormed : params.WellFormed) :
    ∃ data, params.toWireBytes = .ok data ∧
      fromWireBytes params.blockHeader params.seedDerivation data = .ok params := by
  have matching := wellFormed.matchingMoE
  unfold toWireBytes
  cases hasConfig : params.miningConfig.moe with
  | none =>
    cases hasMoE : params.moe with
    | none =>
      have decoded := @fromWireBytes_coreBytes params [] wellFormed
        (moeFromWireBytes_ok.mpr (.inl ⟨by simp [wireSize], hasConfig, hasMoE⟩))
      rw [List.append_nil] at decoded
      exact ⟨params.coreBytes, rfl, decoded⟩
    | some moe =>
      rw [hasConfig, hasMoE] at matching
      exact matching.elim
  | some moeConfig =>
    cases hasMoE : params.moe with
    | none =>
      rw [hasConfig, hasMoE] at matching
      exact matching.elim
    | some moe =>
      rw [hasConfig, hasMoE] at matching
      obtain ⟨offsets, experts, count⟩ := matching
      obtain ⟨counted, read⟩ := readMoEParams_moeBytes count
      have tail : (params.coreBytes ++ moeBytes moe).drop 164 = moeBytes moe :=
        List.drop_left' params.length_coreBytes
      have length : (params.coreBytes ++ moeBytes moe).length =
          199 + 4 * moe.routingOffsets.length + 4 * moe.outerIndices.length := by
        rw [List.length_append, length_coreBytes, length_moeBytes]
        omega
      refine ⟨params.coreBytes ++ moeBytes moe, ?_, ?_⟩
      · simp only [bind_eq_ok, require_eq_ok, pure, Except.pure, exists_const]
        exact ⟨count, offsets, offsets.trans_le experts, trivial⟩
      · apply fromWireBytes_coreBytes wellFormed
        refine moeFromWireBytes_ok.mpr (.inr ⟨?_, moeConfig, hasConfig, experts, ?_, ?_, ?_⟩)
        · rw [length, wireSize]
          omega
        · rw [tail, ← offsets, counted]
          exact count
        · rw [tail, ← offsets, counted, length]
        · rw [tail, ← offsets, read, hasMoE]

end PublicProofParams

end ModelOS.ZkPow
