import ModelOS.BlockChain.Inference
import ModelOS.BlockChain.WitnessCommitment

namespace ModelOS.BlockChain

open Data Wire

/-! The rules of `CheckTransactionSanity`, the subsidy and the height that a
coinbase has to carry. -/

def ScriptClass.string : ScriptClass → String
  | nonStandardTy => "nonstandard"
  | nullDataTy => "nulldata"
  | witnessV1TaprootTy => "witness_v1_taproot"
  | witnessV2MerkleRootTy => "witness_v2_merkleroot"

def minInferenceFeeGrains : Int64 := 1000000

def getTransactionVsize (tx : MsgTx) : Nat :=
  calcVsize tx.serializeSizeStripped (tx.serializeSize - tx.serializeSizeStripped)

section Sanity

variable (inference : InferenceRules)

def InferenceRules.allowInferenceTx : Bool :=
  txVersionInference ≤ inference.maxSupportedTxVersion

/-- One round of the loop over the outputs: its script, its value and the total
so far. -/
def checkTransactionOutput (totalGrain : Int64) (output : TxOut × Nat) :
    Except RuleError Int64 := do
  let (txOut, index) := output
  let scriptClass := inference.getScriptClass txOut.pkScript
  require (scriptClass ≠ .nonStandardTy ∨
      inference.allowInferenceTx ∧ isInferenceBountyScript txOut.pkScript)
    (ruleError .errScriptMalformed ("transaction output " ++ toString index ++
      " has unsupported script type " ++ scriptClass.string))
  let grain := txOut.value
  require (¬ grain < 0) (ruleError .errBadTxOutValue
    ("transaction output has negative value of " ++ toString grain))
  require (¬ grain > maxGrain) (ruleError .errBadTxOutValue
    ("transaction output value is higher than max allowed value: " ++
      toString grain ++ " > " ++ toString maxGrain ++ " "))
  let total := totalGrain + grain
  require (¬ total < 0) (ruleError .errBadTxOutValue
    ("total value of all transaction outputs exceeds max allowed value of " ++ toString maxGrain))
  require (¬ total > maxGrain) (ruleError .errBadTxOutValue
    ("total value of all transaction outputs is " ++ toString total ++
      " which is higher than max allowed value of " ++ toString maxGrain))
  return total

def checkInferenceGoShape (msgTx : MsgTx) : Except RuleError Unit := do
  require (countInferenceGoPayloadOutputs msgTx = 1) (ruleError .errBadTxOutValue
    "inferencego_tx must carry exactly one issuance payload output")
  require (msgTx.txIn.length ≠ 0) (ruleError .errNoTxInputs
    "inferencego_tx must spend at least one input")

def checkInferenceFee (msgTx : MsgTx) : Except RuleError Unit := do
  let fee ← present (msgTx.txOut.head?.map TxOut.value)
    (ruleError .errNoTxOutputs "inference_tx has no fee output")
  require (¬ fee < minInferenceFeeGrains) (ruleError .errBadTxOutValue
    ("inference_tx fee output " ++ toString fee ++ " grains is below minimum " ++
      toString minInferenceFeeGrains ++ " grains (0.01 MDL); increase fee for faster inclusion"))
  match extractInferencePayload msgTx with
  | .error _ => pure ()
  | .ok payload =>
    require (¬ payload.maxTokens > maxInferenceTokens)
      (ruleError .errBadTxOutValue ("inference_tx max_tokens " ++
        toString payload.maxTokens ++ " exceeds consensus limit " ++
        toString maxInferenceTokens ++ "; reduce max_tokens"))

def checkInferenceProofSignatures (msgTx : MsgTx) : Except RuleError Unit := do
  require (isInferenceProofTx msgTx) (ruleError .errBadTxOutValue
    "inference_proof_tx missing valid InferenceResultProof OP_RETURN output")
  let proof ← describe (fun _ => ruleError .errBadTxOutValue
    "inference_proof_tx: cannot extract InferenceResultProof")
    (extractInferenceResultProof msgTx)
  require (proof.workerAddress.bytes.getD 0 0 = 0x51 ∧
      proof.workerAddress.bytes.getD 1 0 = 0x20) (ruleError .errBadTxOutValue
    "inference_proof_tx: WorkerAddress is not a valid P2TR scriptPubKey")
  let pubKey ← present
    (inference.schnorr.parsePubKey (slice proof.workerAddress.bytes 2 32))
    (ruleError .errBadTxOutValue "inference_proof_tx: invalid x-only pubkey in WorkerAddress")
  let sig ← present (inference.schnorr.parseSignature proof.signature.bytes)
    (ruleError .errBadTxOutValue "inference_proof_tx: cannot parse Schnorr signature")
  require (inference.schnorr.verify sig proof.commitmentHash.bytes pubKey)
    (ruleError .errBadTxOutValue
      "inference_proof_tx: Schnorr signature does not verify against CommitmentHash")
  let _ ← present
    (inference.schnorr.parseSignature proof.coordinatorSignature.bytes)
    (ruleError .errBadTxOutValue "inference_proof_tx: cannot parse coordinator Schnorr attestation")

def checkTransactionOutputs (msgTx : MsgTx) : Except RuleError Unit := do
  require (msgTx.txIn.length ≠ 0) (ruleError .errNoTxInputs "transaction has no inputs")
  require (msgTx.txOut.length ≠ 0) (ruleError .errNoTxOutputs "transaction has no outputs")
  let txVsize := getTransactionVsize msgTx
  require (txVsize ≤ maxBlockVsize) (ruleError .errTxTooBig
    ("transaction vsize is too big - got " ++ toString txVsize ++ ", max " ++
      toString maxBlockVsize))
  let _ ← msgTx.txOut.zipIdx.foldlM (checkTransactionOutput inference) 0
  require ((msgTx.version = txVersionInference ∨ msgTx.version = txVersionInferenceProof ∨
      msgTx.version = txVersionInferenceGo) → inference.allowInferenceTx)
    (ruleError .errBadTxOutValue ("transaction version " ++
      toString msgTx.version ++ " (inference) is not supported on this network"))
  if inference.allowInferenceTx then
    if msgTx.version = txVersionInferenceGo then checkInferenceGoShape msgTx
    else if msgTx.version = txVersionInference then checkInferenceFee msgTx
    else if msgTx.version = txVersionInferenceProof then
      checkInferenceProofSignatures inference msgTx
    else pure ()
  else pure ()

def minCoinbaseScriptLen : Nat := 2

def maxCoinbaseScriptLen : Nat := 100

def isNullOutpoint (outPoint : OutPoint) : Bool :=
  outPoint.index = 0xffffffff ∧ outPoint.hash = FixedBytes.zero 32

def checkTransactionPrevOuts (msgTx : MsgTx) : Except RuleError Unit :=
  if isCoinBaseTx msgTx then
    let slen := ((msgTx.txIn.head?.map TxIn.signatureScript).getD []).length
    require (¬ (slen < minCoinbaseScriptLen ∨ slen > maxCoinbaseScriptLen))
      (ruleError .errBadCoinbaseScriptLen
        ("coinbase transaction script length of " ++ toString slen ++
          " is out of range (min: " ++ toString minCoinbaseScriptLen ++ ", max: " ++
          toString maxCoinbaseScriptLen ++ ")"))
  else
    msgTx.txIn.forM fun txIn =>
      require (¬ isNullOutpoint txIn.previousOutPoint) (ruleError .errBadTxInput
          "transaction input refers to previous output that is null")

end Sanity

section Subsidy

def grainPerMDL : Nat := 100000000

def totalSupply : Nat := 21000000 * grainPerMDL

def inferenceBlocks : Int32 := 240

def inferenceRewardGrains : Nat := 2500 * grainPerMDL

def inferencePhase2Offset : Nat := 18884

/-- Above the flat phase the height is positive, so that natural numbers stand in
for the source's big integers. -/
def calcBlockSubsidy (targetTimePerBlock : Nat) (height : Int32) : Int64 :=
  if height = 0 then 0
  else if height ≤ inferenceBlocks then Int64.ofNat inferenceRewardGrains
  else
    let emissionConstant := 4 * 365 * 24 * 60 * 60 / targetTimePerBlock
    let h := height.toInt.toNat + inferencePhase2Offset
    let numerator := totalSupply * emissionConstant
    let denominator := (h + emissionConstant) * (h - 1 + emissionConstant)
    Int64.ofNat (numerator / denominator)

end Subsidy

section CoinbaseHeight

def scriptNumMagnitude : (fuel magnitude : Nat) → Bytes
  | 0, _ => []
  | fuel + 1, magnitude =>
    if magnitude = 0 then []
    else UInt8.ofNat (magnitude % 256) :: scriptNumMagnitude fuel (magnitude / 256)

/-- The highest bit is the sign; a byte is added where it is taken. -/
def scriptNumBytes (value : Int) : Bytes :=
  if value = 0 then []
  else
    let result := scriptNumMagnitude 9 value.natAbs
    let last := result.getLastD 0
    if last &&& 0x80 ≠ 0 then
      result ++ [if value < 0 then 0x80 else 0x00]
    else if value < 0 then result.dropLast ++ [last ||| 0x80]
    else result

def addInt64 (value : Int) : Bytes :=
  if value = 0 then [0x00]
  else if value = -1 ∨ 1 ≤ value ∧ value ≤ 16 then
    [UInt8.ofNat (0x50 + value).toNat]
  else
    let data := scriptNumBytes value
    UInt8.ofNat data.length :: data

def extractCoinbaseHeight (coinbaseTx : MsgTx) : Except RuleError Int32 :=
  match (coinbaseTx.txIn.head?.map TxIn.signatureScript).getD [] with
  | [] => .error (ruleError .errMissingCoinbaseHeight
      ("the coinbase signature script for blocks of version 2 or greater must " ++
        "start with the length of the serialized block height"))
  | opcode :: script =>
    if opcode = 0x00 then .ok 0
    else if 0x51 ≤ opcode ∧ opcode ≤ 0x60 then
      .ok (Int32.ofNat (opcode.toNat - 0x50))
    else do
      let serializedLen := opcode.toNat
      require (¬ script.length < serializedLen) (ruleError .errMissingCoinbaseHeight
          ("the coinbase signature script for blocks of version " ++ toString serializedLen ++
            " or greater must start with the serialized block height"))
      let serializedHeightBytes := FixedBytes.copy 4 (script.take serializedLen)
      let serializedHeight :=
        (UInt32.ofNat (leNat serializedHeightBytes.bytes)).toInt32
      require ((addInt64 serializedHeight.toInt).isPrefixOf (opcode :: script))
        (ruleError .errBadCoinbaseHeight
          ("the coinbase signature script does not minimally encode the height " ++
            toString serializedHeight))
      return serializedHeight

def checkSerializedHeight (coinbaseTx : MsgTx) (wantHeight : Int32) : Except RuleError Unit := do
  let serializedHeight ← extractCoinbaseHeight coinbaseTx
  require (serializedHeight = wantHeight) (ruleError .errBadCoinbaseHeight
    ("the coinbase signature script serialized block height is " ++
      toString serializedHeight ++ " when " ++ toString wantHeight ++ " was expected"))

end CoinbaseHeight

/-- The rules with the source's checks on transactions, its inference rules and
its subsidy in the place of arbitrary ones. -/
def ChainRules.withInference (rules : ChainRules) (inference : InferenceRules) : ChainRules :=
  { rules with
    txHash := MsgTx.txHash rules.sha256d
    checkTransactionOutputs := BlockChain.checkTransactionOutputs inference
    checkTransactionPrevOuts := BlockChain.checkTransactionPrevOuts
    checkSerializedHeight := BlockChain.checkSerializedHeight
    checkInferenceGoTx := BlockChain.checkInferenceGoTx inference rules.network
    checkInferenceBountySpends := BlockChain.checkInferenceBountySpends rules.sha256d inference
    calcBlockSubsidy := BlockChain.calcBlockSubsidy inference.targetTimePerBlock }

end ModelOS.BlockChain
