import ModelOS.BlockChain.InferenceCovenant
import ModelOS.BlockChain.Validate
import ModelOS.Wire.InferenceTx

namespace ModelOS.BlockChain

open Data Wire

/-! The covenant on every spent bounty, and the issuance of a version-5 transaction. -/

inductive ScriptClass
  | nonStandardTy
  | nullDataTy
  | witnessV1TaprootTy
  | witnessV2MerkleRootTy
deriving DecidableEq

/-- The functions of other packages that the rules on transactions call, and what
a network configures for them.  The target time is in seconds. -/
structure InferenceRules where
  sha3 : Bytes → FixedBytes 32
  schnorr : Schnorr
  computeTaprootKeyNoScript : schnorr.PubKey → FixedBytes 32
  getScriptClass : Bytes → ScriptClass
  maxSupportedTxVersion : Int32
  targetTimePerBlock : Nat
  targetTimePerBlock_pos : 0 < targetTimePerBlock

/-- The target of every network is 194 seconds. -/
theorem targetTime_pos : 0 < 194 := by
  decide

namespace BlockNode

def ancestor (node : BlockNode) (height : Int32) : Option BlockNode :=
  if height < 0 ∨ node.height < height then none
  else node.ancestors.find? fun ancestor => ancestor.height = height

theorem ancestor_eq_some {node found : BlockNode} {height : Int32}
    (isAncestor : node.ancestor height = some found) :
    found ∈ node.ancestors ∧ found.height = height := by
  rw [ancestor] at isAncestor
  split at isAncestor
  · cases isAncestor
  · exact ⟨List.mem_of_find?_eq_some isAncestor, by simpa using List.find?_some isAncestor⟩

end BlockNode

section Covenant

variable (sha256d : Bytes → Hash) (inference : InferenceRules)

/-- The first witness element of a refund; claims carry none. -/
def refundSigOf (txIn : TxIn) : FixedBytes 64 :=
  match txIn.witness with
  | first :: _ => if first.length = 64 then .copy 64 first else .zero 64
  | [] => .zero 64

/-- One input of the covenant's loop.  The blocks of the chain are looked up from
`node`, and a block that is missing is reported with `unresolved`. -/
def checkInferenceBountyInput (tx : MsgTx) (node : BlockNode) (spendHeight : Int32)
    (entries : UtxoEntries) (unresolved : String) (txIn : TxIn) : Except RuleError Unit :=
  match entries txIn.previousOutPoint with
  | none => .ok ()
  | some entry =>
    match parseInferenceBountyScript entry.pkScript with
    | none => .ok ()
    | some params => do
        let ancestor ← present (node.ancestor entry.height)
          (ruleError .errBadTxOutValue unresolved)
        checkInferenceBountySpend inference.sha3 inference.schnorr tx params
          txIn.previousOutPoint entry.height spendHeight (ancestor.hash sha256d) (refundSigOf txIn)

def checkInferenceBountySpends (tx : MsgTx) (node : BlockNode)
    (entries : UtxoEntries) : Except RuleError Unit :=
  tx.txIn.forM (checkInferenceBountyInput sha256d inference tx node node.height
    entries "inference bounty: cannot resolve the confirming block for the spend")

def checkInferenceBountySpendsAgainstTip (tx : MsgTx) (tip : BlockNode)
    (entries : UtxoEntries) : Except RuleError Unit :=
  tx.txIn.forM (checkInferenceBountyInput sha256d inference tx tip (tip.height + 1)
    entries "inference bounty: cannot resolve the confirming block at tip")

end Covenant

section Issuance

variable (inference : InferenceRules)

/-- The tag spells `MDL-INFERENCEGO-ISSUE`. -/
def inferenceGoSigHashTag : Bytes :=
  [0x4d, 0x44, 0x4c, 0x2d, 0x49, 0x4e, 0x46, 0x45, 0x52, 0x45, 0x4e, 0x43, 0x45,
    0x47, 0x4f, 0x2d, 0x49, 0x53, 0x53, 0x55, 0x45]

def inferenceGoForkHeight : Int32 := 36438

def inferenceGoForkActive (height : Int32) : Bool :=
  inferenceGoForkHeight ≠ 0 ∧ inferenceGoForkHeight ≤ height

def mainNet : UInt32 := 0x4d444c4d

def testNet : UInt32 := 0x4d444c31

def testNet2 : UInt32 := 0x4d444c32

def inferenceGoMainnetAuthority : FixedBytes 32 :=
  .ofNat 32 0x8567c2f652b4e2a4b3cdfff6c4de5b8448cb0ab267c69497807734409065fbd7

def inferenceGoTestnetAuthority : FixedBytes 32 :=
  .ofNat 32 0x6335cf719087682b0d3281416441335c18123807a6166f5da074888e59104665

def inferenceGoRegtestAuthority : FixedBytes 32 :=
  .ofNat 32 0x8e9a4e18f923f4c4ec41b546f46f605b765df36afa8600793ca8bfbe7d5a0e4b

def inferenceGoAuthority (network : UInt32) : FixedBytes 32 :=
  if network = mainNet then inferenceGoMainnetAuthority
  else if network = testNet ∨ network = testNet2 then inferenceGoTestnetAuthority
  else inferenceGoRegtestAuthority

def inferenceGoMessage (payload : InferenceGoPayload) (firstInput : OutPoint) : Bytes :=
  inferenceGoSigHashTag ++ payload.signedBytes ++ firstInput.hash.bytes ++
    leBytes 4 firstInput.index.toNat

def inferenceGoSigHash (payload : InferenceGoPayload) (firstInput : OutPoint) : FixedBytes 32 :=
  inference.sha3 (inferenceGoMessage payload firstInput)

def taprootOutputKey (internal : FixedBytes 32) : Option (FixedBytes 32) :=
  (inference.schnorr.parsePubKey internal.bytes).map inference.computeTaprootKeyNoScript

def validateInferenceGoTx (msgTx : MsgTx) (authority : FixedBytes 32) : Except RuleError Int64 := do
  require (countInferenceGoPayloadOutputs msgTx = 1) (ruleError .errBadTxOutValue
    "inferencego: a transaction must carry exactly one issuance payload")
  let payload ← describe (fun error => ruleError .errBadTxOutValue
    ("inferencego: " ++ error)) (extractInferenceGoPayload msgTx)
  let firstInput ← present (msgTx.txIn.head?.map TxIn.previousOutPoint)
    (ruleError .errBadTxOutValue "inferencego: an issuance must spend at least one input")
  require (payload.amount.toNat ≤ maxGrain.toInt.toNat) (ruleError .errBadTxOutValue
    "inferencego: issue amount exceeds the maximum allowed value")
  let amount := payload.amount.toInt64
  require (0 < amount) (ruleError .errBadTxOutValue "inferencego: issue amount must be positive")
  let authKey ← present (inference.schnorr.parsePubKey authority.bytes)
    (ruleError .errBadTxOutValue "inferencego: invalid authorised x-only pubkey")
  let sig ← present (inference.schnorr.parseSignature payload.signature.bytes)
    (ruleError .errBadTxOutValue "inferencego: cannot parse authority signature")
  let msg := inferenceGoSigHash inference payload firstInput
  require (inference.schnorr.verify sig msg.bytes authKey) (ruleError .errBadTxOutValue
      "inferencego: signature does not verify against the authorised key")
  -- the authority was parsed above, so the key that stands in for a missing
  -- destination exists
  let dest ← (if payload.hasDestination then .ok payload.destination
    else present (taprootOutputKey inference authority)
      (ruleError .errBadTxOutValue "inferencego: "))
  let want := inferenceGoP2TRScript dest
  let paid := msgTx.txOut.foldl (fun paid txOut =>
    if txOut.pkScript = want then paid + txOut.value else paid) 0
  require (¬ paid < amount) (ruleError .errBadTxOutValue
    "inferencego: outputs to the destination must total at least the issued amount")
  return amount

def checkInferenceGoIssuance (network : UInt32) (tx : MsgTx) (height : Int32) :
    Except RuleError Int64 :=
  if tx.version ≠ txVersionInferenceGo then .ok 0
  else do
    require (inferenceGoForkActive height) (ruleError .errBadTxOutValue
      "inferencego: issuance is not active at this height")
    require (¬ isCoinBaseTx tx) (ruleError .errBadTxOutValue
      "inferencego: the coinbase may not carry an issuance")
    validateInferenceGoTx inference tx (inferenceGoAuthority network)

def checkInferenceGoTx (network : UInt32) (tx : MsgTx) (node : BlockNode) :
    Except RuleError Int64 :=
  checkInferenceGoIssuance inference network tx node.height

end Issuance

end ModelOS.BlockChain
