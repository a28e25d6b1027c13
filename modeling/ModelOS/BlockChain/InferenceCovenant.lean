import ModelOS.BlockChain.RuleError
import ModelOS.Data.Checked
import ModelOS.Wire.InferenceProof

namespace ModelOS.BlockChain

open Data Wire

/-! A request locks its fee in an output that only a proven claim can spend inside the
window and only the requester after it. -/

/-- A Schnorr scheme in which no two messages share a signature. -/
structure Schnorr where
  PubKey : Type
  Signature : Type
  parsePubKey : Bytes → Option PubKey
  parseSignature : Bytes → Option Signature
  verify : Signature → Bytes → PubKey → Bool
  message_unique : ∀ {signature firstMessage secondMessage firstKey secondKey},
    verify signature firstMessage firstKey = true →
    verify signature secondMessage secondKey = true → firstMessage = secondMessage

/-- A scheme whose valid signatures are listed, each with its message and key. -/
def Schnorr.listed (signed : List (Bytes × Bytes × Bytes)) (unique : ∀ first ∈ signed, ∀ second ∈ signed,
      first.1 = second.1 → first.2.1 = second.2.1) : Schnorr where
  PubKey := Bytes
  Signature := Bytes
  parsePubKey bytes := if bytes.length = 32 then some bytes else none
  parseSignature bytes := if bytes.length = 64 then some bytes else none
  verify signature message key := (signature, message, key) ∈ signed
  message_unique := by
    intro signature firstMessage secondMessage firstKey secondKey first second
    rw [decide_eq_true_eq] at first second
    exact unique _ first _ second rfl

structure InferenceBountyParams where
  requesterPubKey : FixedBytes 32
  coordinatorPubKey : FixedBytes 32
  promptHash : FixedBytes 32
  nonce : UInt64
  modelVersion : UInt16
deriving DecidableEq

def inferenceBountyMagic : Bytes := [0x6d, 0x64, 0x6c, 0x62]

def inferenceBountyVersion : UInt8 := 1

def inferenceBountyDataSize : Nat := 4 + 1 + 32 + 32 + 32 + 8 + 2

def inferenceBountyScriptSize : Nat := 2 + inferenceBountyDataSize

/-- The tag spells `MDL-INFERENCE-REFUND`. -/
def refundSigHashTag : Bytes :=
  [0x4d, 0x44, 0x4c, 0x2d, 0x49, 0x4e, 0x46, 0x45, 0x52, 0x45,
    0x4e, 0x43, 0x45, 0x2d, 0x52, 0x45, 0x46, 0x55, 0x4e, 0x44]

def buildInferenceBountyScript (params : InferenceBountyParams) : Bytes :=
  [0x4c, UInt8.ofNat inferenceBountyDataSize] ++ inferenceBountyMagic ++
    [inferenceBountyVersion] ++ params.requesterPubKey.bytes ++
    params.coordinatorPubKey.bytes ++ params.promptHash.bytes ++
    leBytes 8 params.nonce.toNat ++ leBytes 2 params.modelVersion.toNat

def parseInferenceBountyScript (pkScript : Bytes) : Option InferenceBountyParams :=
  if pkScript.length ≠ inferenceBountyScriptSize then none
  else if pkScript.getD 0 0 ≠ 0x4c ∨
      pkScript.getD 1 0 ≠ UInt8.ofNat inferenceBountyDataSize then none
  else
    let data := pkScript.drop 2
    if slice data 0 4 ≠ inferenceBountyMagic then none
    else if data.getD 4 0 ≠ inferenceBountyVersion then none
    else some {
      requesterPubKey := .copy 32 (slice data 5 32)
      coordinatorPubKey := .copy 32 (slice data 37 32)
      promptHash := .copy 32 (slice data 69 32)
      nonce := UInt64.ofNat (leNat (slice data 101 8))
      modelVersion := UInt16.ofNat (leNat (slice data 109 2)) }

def isInferenceBountyScript (pkScript : Bytes) : Bool :=
  (parseInferenceBountyScript pkScript).isSome

section Covenant

variable (sha3 : Bytes → FixedBytes 32) (schnorr : Schnorr)

def recomputeInferenceCommitment (promptHash resultHash : FixedBytes 32)
    (workerAddress : FixedBytes 34) (blockHash : Hash) (nonce : UInt64)
    (modelVersion : UInt16) : FixedBytes 32 :=
  sha3 (promptHash.bytes ++ resultHash.bytes ++ workerAddress.bytes ++
    blockHash.bytes ++ leBytes 8 nonce.toNat ++ leBytes 2 modelVersion.toNat)

def validateInferenceBountyClaim (proof : InferenceResultProof)
    (params : InferenceBountyParams) (confirmBlockHash : Hash) : Except RuleError Unit := do
  require (proof.blockHash = confirmBlockHash) (ruleError .errBadTxOutValue
    "inference claim: proof BlockHash does not match the confirming block")
  let want := recomputeInferenceCommitment sha3 params.promptHash
    proof.resultHash proof.workerAddress proof.blockHash params.nonce
    params.modelVersion
  require (want = proof.commitmentHash) (ruleError .errBadTxOutValue
    "inference claim: commitment does not bind to this request (prompt/nonce/model)")
  require (proof.workerAddress.bytes.getD 0 0 = 0x51 ∧
      proof.workerAddress.bytes.getD 1 0 = 0x20) (ruleError .errBadTxOutValue
    "inference claim: WorkerAddress is not a P2TR scriptPubKey")
  let workerKey ← present
    (schnorr.parsePubKey (slice proof.workerAddress.bytes 2 32))
    (ruleError .errBadTxOutValue "inference claim: invalid worker x-only pubkey")
  let workerSig ← present (schnorr.parseSignature proof.signature.bytes)
    (ruleError .errBadTxOutValue "inference claim: cannot parse worker signature")
  require (schnorr.verify workerSig proof.commitmentHash.bytes workerKey)
    (ruleError .errBadTxOutValue "inference claim: worker signature does not verify")
  let coordKey ← present (schnorr.parsePubKey params.coordinatorPubKey.bytes)
    (ruleError .errBadTxOutValue "inference claim: invalid coordinator x-only pubkey")
  let coordSig ← present
    (schnorr.parseSignature proof.coordinatorSignature.bytes)
    (ruleError .errBadTxOutValue "inference claim: cannot parse coordinator attestation")
  require (schnorr.verify coordSig proof.commitmentHash.bytes coordKey) (ruleError .errBadTxOutValue
      "inference claim: coordinator attestation does not verify against the named coordinator")

def inferenceRefundSigHash (bounty : OutPoint) : FixedBytes 32 :=
  sha3 (refundSigHashTag ++ bounty.hash.bytes ++ leBytes 4 bounty.index.toNat)

def validateInferenceBountyRefund (refundSig : FixedBytes 64)
    (params : InferenceBountyParams) (bounty : OutPoint) : Except RuleError Unit := do
  let reqKey ← present (schnorr.parsePubKey params.requesterPubKey.bytes)
    (ruleError .errBadTxOutValue "inference refund: invalid requester x-only pubkey")
  let sig ← present (schnorr.parseSignature refundSig.bytes)
    (ruleError .errBadTxOutValue "inference refund: cannot parse requester signature")
  let msg := inferenceRefundSigHash sha3 bounty
  require (schnorr.verify sig msg.bytes reqKey) (ruleError .errBadTxOutValue
    "inference refund: requester signature does not verify")

/-- The height difference is a 32-bit subtraction and wraps around. -/
def inferenceBountyWithinWindow (confirmHeight spendHeight : Int32) : Bool :=
  spendHeight - confirmHeight ≤ inferenceProofWindowBlocks

def checkInferenceBountySpend (spendingTx : MsgTx)
    (params : InferenceBountyParams) (bountyOutPoint : OutPoint)
    (confirmHeight spendHeight : Int32) (confirmBlockHash : Hash)
    (refundSig : FixedBytes 64) : Except RuleError Unit :=
  if inferenceBountyWithinWindow confirmHeight spendHeight then do
    let proof ← describe (fun _ => ruleError .errBadTxOutValue
      ("inference bounty spent within window without a valid InferenceResultProof " ++
        "(requester refund is not permitted until the proof window passes)"))
      (extractInferenceResultProof spendingTx)
    validateInferenceBountyClaim sha3 schnorr proof params confirmBlockHash
  else
    validateInferenceBountyRefund sha3 schnorr refundSig params bountyOutPoint

end Covenant

theorem parseInferenceBountyScript_build (params : InferenceBountyParams) :
    parseInferenceBountyScript (buildInferenceBountyScript params) = some params := by
  obtain ⟨⟨requester, requesterLength⟩, ⟨coordinator, coordinatorLength⟩,
    ⟨promptHash, promptLength⟩, nonce, modelVersion⟩ := params
  simp [parseInferenceBountyScript, buildInferenceBountyScript,
    inferenceBountyScriptSize, inferenceBountyDataSize, inferenceBountyMagic,
    slice, List.drop_append, FixedBytes.copy, List.drop_eq_nil_of_le, List.take_of_length_le, *]

/-- The second transaction carries the authorisation of the first one and pays
other outputs. -/
structure Reroutes (tx rerouted : MsgTx) : Prop where
  version : rerouted.version = tx.version
  txIn : rerouted.txIn = tx.txIn
  proofOutputs : inferenceProofOutputs rerouted = inferenceProofOutputs tx
  remaining_ne : remainingOutputs rerouted ≠ remainingOutputs tx

/-- The authorisation of an accepted spend is worth nothing to any transaction
that pays other outputs. -/
def AuthorisationFixesOutputs (sha3 : Bytes → FixedBytes 32)
    (schnorr : Schnorr) (tx : MsgTx) (params : InferenceBountyParams)
    (bounty : OutPoint) (confirmHeight spendHeight : Int32)
    (confirmBlockHash : Hash) (refundSig : FixedBytes 64) : Prop :=
  ∀ rerouted, Reroutes tx rerouted → checkInferenceBountySpend sha3 schnorr rerouted params bounty
      confirmHeight spendHeight confirmBlockHash refundSig ≠ .ok ()

section Rerouting

variable {sha3 : Bytes → FixedBytes 32} {schnorr : Schnorr}
  {params : InferenceBountyParams} {bounty : OutPoint}
  {confirmHeight spendHeight : Int32} {confirmBlockHash : Hash}
  {refundSig : FixedBytes 64} {tx rerouted : MsgTx}

theorem checkInferenceBountySpend_reroutes (reroutes : Reroutes tx rerouted) :
    checkInferenceBountySpend sha3 schnorr rerouted params bounty
        confirmHeight spendHeight confirmBlockHash refundSig =
      checkInferenceBountySpend sha3 schnorr tx params bounty
        confirmHeight spendHeight confirmBlockHash refundSig := by
  unfold checkInferenceBountySpend
  rw [extractInferenceResultProof_congr reroutes.version reroutes.proofOutputs]

theorem exists_reroutes_to (tx : MsgTx) (payouts : List TxOut)
    (plain : ∀ out ∈ payouts, parseInferenceProofOpReturn out.pkScript = none)
    (payouts_ne : payouts ≠ remainingOutputs tx) :
    ∃ rerouted, Reroutes tx rerouted ∧ remainingOutputs rerouted = payouts := by
  let rerouted := { tx with txOut := inferenceProofOutputs tx ++ payouts }
  have proofOutputs : inferenceProofOutputs rerouted = inferenceProofOutputs tx := by
    have noneLeft : payouts.filter (fun out =>
        (parseInferenceProofOpReturn out.pkScript).isSome) = [] := by
      simpa [List.filter_eq_nil_iff] using plain
    simp [rerouted, inferenceProofOutputs, List.filter_append, List.filter_filter, noneLeft]
  have remaining : remainingOutputs rerouted = payouts := by
    have allLeft : payouts.filter (fun out =>
        (parseInferenceProofOpReturn out.pkScript).isNone) = payouts := by
      simpa [List.filter_eq_self] using plain
    have proofsLeave : (inferenceProofOutputs tx).filter (fun out =>
        (parseInferenceProofOpReturn out.pkScript).isNone) = [] := by
      rw [List.filter_eq_nil_iff]
      intro out member
      have isProof := (List.mem_filter.mp member).2
      simpa [Option.isSome_iff_ne_none] using isProof
    simp only [rerouted, remainingOutputs, List.filter_append]
    rw [proofsLeave, allLeft, List.nil_append]
  refine ⟨rerouted, ⟨rfl, rfl, proofOutputs, ?_⟩, remaining⟩
  rw [remaining]
  exact payouts_ne

theorem exists_reroutes (tx : MsgTx) : ∃ rerouted, Reroutes tx rerouted := by
  -- one more empty output than the transaction pays
  let payouts : List TxOut :=
    List.replicate ((remainingOutputs tx).length + 1) ⟨0, []⟩
  have plain : ∀ out ∈ payouts, parseInferenceProofOpReturn out.pkScript = none := by
    intro out member
    rw [List.eq_of_mem_replicate member]
    rfl
  have payouts_ne : payouts ≠ remainingOutputs tx := by
    intro equality
    have lengths := congrArg List.length equality
    simp [payouts] at lengths
  obtain ⟨rerouted, reroutes, _⟩ := exists_reroutes_to tx payouts plain payouts_ne
  exact ⟨rerouted, reroutes⟩

/-- No accepted claim or refund fixes where the money goes. -/
theorem accepted_bounty_spend_fixes_no_outputs
    (accepted : checkInferenceBountySpend sha3 schnorr tx params bounty
      confirmHeight spendHeight confirmBlockHash refundSig = .ok ()) :
    ¬ AuthorisationFixesOutputs sha3 schnorr tx params bounty
      confirmHeight spendHeight confirmBlockHash refundSig := by
  intro fixes
  obtain ⟨rerouted, reroutes⟩ := exists_reroutes tx
  apply fixes rerouted reroutes
  rw [checkInferenceBountySpend_reroutes reroutes]
  exact accepted

end Rerouting

namespace RefundExample

def bounty : OutPoint := ⟨.fill 32 0x11, 0⟩

def requesterKey : FixedBytes 32 :=
  .ofNat 32 0xf9308a019258c31049344f85f89d5229b531c845836f99b08601f113bce036f9

def digest : FixedBytes 32 :=
  .ofNat 32 0xe828c65868a58a3466b44111aeb5852aaf87e84bd733105b894969773795ec4b

def refundSig : FixedBytes 64 :=
  .ofNat 64 0x899f9eb60c611266f0842bfbc8abc9ca27635ec529fd568271ad92bdcbb3400cf8ec7a4866e0b7456403d78841f472f601d1010dc21f25083f5130386abd6009

def sha3 (message : Bytes) : FixedBytes 32 :=
  if message = refundSigHashTag ++ bounty.hash.bytes ++ [0, 0, 0, 0] then digest
  else .zero 32

def schnorr : Schnorr :=
  .listed [(refundSig.bytes, digest.bytes, requesterKey.bytes)] (by decide)

def params : InferenceBountyParams where
  requesterPubKey := requesterKey
  coordinatorPubKey := .zero 32
  promptHash := .zero 32
  nonce := 7
  modelVersion := 4

def confirmHash : Hash := .zero 32

def refundTx : MsgTx where
  version := 1
  txIn := [⟨bounty, [], [refundSig.bytes], 0xffffffff⟩]
  txOut := [⟨100000, [0x51, 0x20] ++ requesterKey.bytes⟩]
  lockTime := 0

def stolenTx : MsgTx :=
  { refundTx with txOut := [⟨100000, [0x51, 0x20] ++ List.replicate 32 0xee⟩] }

theorem refund_fixes_no_outputs :
    checkInferenceBountySpend sha3 schnorr refundTx params bounty 100 106
        confirmHash refundSig = .ok () ∧
      ¬ AuthorisationFixesOutputs sha3 schnorr refundTx params bounty 100 106
        confirmHash refundSig :=
  ⟨by decide, accepted_bounty_spend_fixes_no_outputs (by decide)⟩

theorem stolen_refund_accepted :
    checkInferenceBountySpend sha3 schnorr refundTx params bounty 100 106
        confirmHash refundSig = .ok () ∧ Reroutes refundTx stolenTx ∧
      checkInferenceBountySpend sha3 schnorr stolenTx params bounty 100 106
        confirmHash refundSig = .ok () := by
  refine ⟨by decide, ⟨rfl, rfl, by decide, by decide⟩, ?_⟩
  decide

end RefundExample

end ModelOS.BlockChain
