import ModelOS.ZkPow.Pattern
import ModelOS.ZkPow.Verify

namespace ModelOS.ZkPow

open Data Wire

inductive MMAType
  | int7xInt7ToInt32
deriving DecidableEq

structure MoEConfig where
  e : UInt16
  topK : UInt16
deriving DecidableEq

structure MiningConfiguration where
  commonDim : UInt32
  rank : UInt16
  mmaType : MMAType
  rowsPattern : PeriodicPattern
  colsPattern : PeriodicPattern
  moe : Option MoEConfig
deriving DecidableEq

structure MoEParams where
  expertIdx : UInt16
  routingOffsets : List UInt32
  hashRouting : FixedBytes 32
  outerIndices : List UInt32
deriving DecidableEq

inductive SeedDerivation
  | legacy
  | salted
deriving DecidableEq

structure PublicProofParams where
  blockHeader : IncompleteBlockHeader
  seedDerivation : SeedDerivation
  miningConfig : MiningConfiguration
  hashA : FixedBytes 32
  hashB : FixedBytes 32
  hashJackpot : FixedBytes 32
  m : UInt32
  n : UInt32
  tRows : UInt32
  tCols : UInt32
  moe : Option MoEParams
deriving DecidableEq

namespace MiningConfiguration

def serializedSize : Nat := 52

/-- `e`, `top_k` and zero padding; a job without experts leaves all of it zero. -/
def trailerBytes (config : MiningConfiguration) : Bytes :=
  match config.moe with
  | some moe => leBytes 2 moe.e.toNat ++ leBytes 2 moe.topK.toNat ++
      List.replicate 28 0
  | none => List.replicate 32 0

def toBytes (config : MiningConfiguration) : Bytes :=
  leBytes 4 config.commonDim.toNat ++ leBytes 2 config.rank.toNat ++
    leBytes 2 0 ++ config.rowsPattern.toBytes ++ config.colsPattern.toBytes ++ config.trailerBytes

def fromBytes (data : Bytes) : Except String MiningConfiguration := do
  require (data.length = serializedSize) ("Expected 52 bytes, got " ++ toString data.length)
  let mmaTypeRaw := readU16 data 6
  require (mmaTypeRaw = 0) ("Invalid MMAType: " ++ toString mmaTypeRaw)
  let rowsPattern ← PeriodicPattern.fromBytes (slice data 8 6)
  let colsPattern ← PeriodicPattern.fromBytes (slice data 14 6)
  let e := readU16 data 20
  let topK := readU16 data 22
  require (∀ byte ∈ slice data 24 28, byte = 0) "Reserved trailer bytes must be zero"
  return {
    commonDim := readU32 data 0
    rank := readU16 data 4
    mmaType := .int7xInt7ToInt32
    rowsPattern
    colsPattern
    moe := if e = 0 then none else some ⟨e, topK⟩ }

end MiningConfiguration

namespace PublicProofParams

def wireSize : Nat := 164

def minMoEWireSize : Nat := 199

def maxNumExperts : Nat := 1024

def maxOuterIndices : Nat := 128

def routingOffsetBytes : Nat := 4

def maxWireSize : Nat :=
  minMoEWireSize + maxOuterIndices * 4 + maxNumExperts * routingOffsetBytes

def isValidWireSize (length : Nat) : Bool :=
  length = wireSize ∨ (minMoEWireSize ≤ length ∧ length ≤ maxWireSize)

def outerCount (moeData : Bytes) (numExperts : Nat) : Nat :=
  (moeData.getD (2 + 4 * numExperts + 32) 0).toNat

def readMoEParams (moeData : Bytes) (numExperts : Nat) : MoEParams where
  expertIdx := readU16 moeData 0
  routingOffsets := readU32s moeData 2 numExperts
  hashRouting := .copy 32 (slice moeData (2 + 4 * numExperts) 32)
  outerIndices := readU32s moeData (2 + 4 * numExperts + 33) (outerCount moeData numExperts)

/-- The part of `from_wire_bytes` that reads what follows the core fields. -/
def moeFromWireBytes (publicData : Bytes) (config : MiningConfiguration) :
    Except String (Option MoEParams) :=
  if publicData.length = wireSize then do
    require config.moe.isNone "mining_config selects GROUPED_GEMM but public_data has no MoE tail"
    return none
  else do
    let moeConfig ← present config.moe
      "public_data has a MoE tail but mining_config is not GROUPED_GEMM"
    let numExperts := moeConfig.e.toNat
    require (numExperts ≤ maxNumExperts)
      ("number of experts " ++ toString numExperts ++ " exceeds maximum 1024")
    let needed := minMoEWireSize + routingOffsetBytes * numExperts
    require (needed ≤ publicData.length) ("MoE public_data truncated (need " ++ toString needed ++
        " bytes after core)")
    let moeData := publicData.drop wireSize
    let numOuterIndices := outerCount moeData numExperts
    require (numOuterIndices ≤ maxOuterIndices)
      ("outer_indices length " ++ toString numOuterIndices ++ " exceeds max 128")
    let expectedLen := minMoEWireSize + numOuterIndices * 4 +
      numExperts * routingOffsetBytes
    require (publicData.length = expectedLen)
      ("MoE public_data length mismatch: expected " ++ toString expectedLen ++
        " bytes, got " ++ toString publicData.length)
    return some (readMoEParams moeData numExperts)

def fromWireBytes (blockHeader : IncompleteBlockHeader)
    (seedDerivation : SeedDerivation) (publicData : Bytes) : Except String PublicProofParams := do
  require (wireSize ≤ publicData.length) "public_data too short: need at least 164 bytes"
  let miningConfig ← MiningConfiguration.fromBytes (slice publicData 0 52)
  let m := readU32 publicData 148
  let n := readU32 publicData 152
  let tRows := readU32 publicData 156
  let tCols := readU32 publicData 160
  let moe ← moeFromWireBytes publicData miningConfig
  require (miningConfig.rowsPattern.offsetIsValid tRows.toNat)
    "t_rows must be a valid offset for rows_pattern"
  require (miningConfig.colsPattern.offsetIsValid tCols.toNat)
    "t_cols must be a valid offset for cols_pattern"
  require (tRows < m) ("t_rows=" ++ toString tRows ++ " must be < m=" ++ toString m)
  require (tCols < n) ("t_cols=" ++ toString tCols ++ " must be < n=" ++ toString n)
  return {
    blockHeader
    seedDerivation
    miningConfig
    hashA := .copy 32 (slice publicData 52 32)
    hashB := .copy 32 (slice publicData 84 32)
    hashJackpot := .copy 32 (slice publicData 116 32)
    m, n, tRows, tCols, moe }

def coreBytes (params : PublicProofParams) : Bytes :=
  params.miningConfig.toBytes ++ params.hashA.bytes ++ params.hashB.bytes ++
    params.hashJackpot.bytes ++ leBytes 4 params.m.toNat ++
    leBytes 4 params.n.toNat ++ leBytes 4 params.tRows.toNat ++ leBytes 4 params.tCols.toNat

def moeBytes (moe : MoEParams) : Bytes :=
  leBytes 2 moe.expertIdx.toNat ++ writeU32s moe.routingOffsets ++
    moe.hashRouting.bytes ++ leBytes 1 moe.outerIndices.length ++ writeU32s moe.outerIndices

def toWireBytes (params : PublicProofParams) : Except String Bytes :=
  match params.moe, params.miningConfig.moe with
  | some moe, some moeConfig => do
      require (moe.outerIndices.length ≤ maxOuterIndices)
        ("outer_indices length " ++ toString moe.outerIndices.length ++ " exceeds max 128")
      require (moe.routingOffsets.length = moeConfig.e.toNat)
        ("routing_offsets length " ++ toString moe.routingOffsets.length ++
          " must equal the number of experts " ++ toString moeConfig.e)
      require (moe.routingOffsets.length ≤ maxNumExperts)
        "Condition failed: `moe.routing_offsets.len() <= Self::MAX_NUM_EXPERTS`"
      return params.coreBytes ++ moeBytes moe
  | none, none => return params.coreBytes
  | _, _ => .error "MoEParams presence must match mining_config.moe presence"

end PublicProofParams

end ModelOS.ZkPow
