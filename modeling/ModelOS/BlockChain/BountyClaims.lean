import ModelOS.BlockChain.AcceptedChain
import ModelOS.BlockChain.BestChain
import ModelOS.BlockChain.TxSanity
import ModelOS.BlockChain.Undo

namespace ModelOS.BlockChain

open Data Wire

/-! Which bounties of a chain were released inside their window, and by which proof. -/

structure BountyClaim where
  outPoint : OutPoint
  params : InferenceBountyParams
  confirmHeight : Int32
  proof : InferenceResultProof
deriving DecidableEq

def claimOf (spendHeight : Int32) (ledger : Ledger OutPoint SpentTxOut) (tx : MsgTx)
    (txIn : TxIn) : Option BountyClaim :=
  match ledger txIn.previousOutPoint with
  | none => none
  | some coin =>
    match parseInferenceBountyScript coin.pkScript, extractInferenceResultProof tx with
    | some params, .ok proof =>
      if inferenceBountyWithinWindow coin.height spendHeight then
        some ⟨txIn.previousOutPoint, params, coin.height, proof⟩
      else none
    | _, _ => none

def chainClaims (rules : ChainRules) (node : BlockNode) : List BountyClaim :=
  (chainTransactions rules node).flatMap fun (block, ledger, tx) =>
    tx.txIn.filterMap (claimOf block.height ledger tx)

structure Bounty where
  height : Int32
  outPoint : OutPoint
  params : InferenceBountyParams
deriving DecidableEq

def bountiesOf (rules : TxRules) (height : Int32) (tx : MsgTx) : List Bounty :=
  (spendableOutputs rules tx).filterMap fun (outPoint, txOut) =>
    (parseInferenceBountyScript txOut.pkScript).map fun params =>
      ⟨height, outPoint, params⟩

def chainBounties (rules : ChainRules) (node : BlockNode) : List Bounty :=
  (chainTransactions rules node).flatMap fun (block, _, tx) =>
    bountiesOf rules.toTxRules block.height tx

/-- What the commitment of a proof binds of a request. -/
def InferenceBountyParams.request (params : InferenceBountyParams) :
    FixedBytes 32 × UInt64 × UInt16 :=
  (params.promptHash, params.nonce, params.modelVersion)

/-- No two bounties of one height are for one request. -/
def OneBountyPerRequest (rules : ChainRules) (node : BlockNode) : Prop :=
  ∀ first ∈ chainBounties rules node, ∀ second ∈ chainBounties rules node,
    first.height = second.height → first.params.request = second.params.request →
      first.outPoint = second.outPoint

instance (rules : ChainRules) (node : BlockNode) : Decidable (OneBountyPerRequest rules node) :=
  inferInstanceAs (Decidable (∀ first ∈ chainBounties rules node,
    ∀ second ∈ chainBounties rules node, first.height = second.height →
      first.params.request = second.params.request → first.outPoint = second.outPoint))

def commitmentMessage (params : InferenceBountyParams) (proof : InferenceResultProof) : Bytes :=
  params.promptHash.bytes ++ proof.resultHash.bytes ++ proof.workerAddress.bytes ++
    proof.blockHash.bytes ++ leBytes 8 params.nonce.toNat ++ leBytes 2 params.modelVersion.toNat

theorem request_eq_of_commitmentMessage_eq
    (same : commitmentMessage first proof = commitmentMessage second proof) :
    first.request = second.request := by
  simp only [commitmentMessage, List.append_assoc] at same
  obtain ⟨prompt, same⟩ := List.append_inj same (by simp)
  obtain ⟨_, same⟩ := List.append_inj same rfl
  obtain ⟨_, same⟩ := List.append_inj same rfl
  obtain ⟨_, same⟩ := List.append_inj same rfl
  obtain ⟨nonce, model⟩ := List.append_inj same (by simp)
  have promptHash := FixedBytes.ext prompt
  have nonces := leBytes_injective first.nonce.toNat_lt second.nonce.toNat_lt nonce
  have models := leBytes_injective first.modelVersion.toNat_lt second.modelVersion.toNat_lt model
  rw [InferenceBountyParams.request, InferenceBountyParams.request, promptHash,
    UInt64.toNat_inj.mp nonces, UInt16.toNat_inj.mp models]

/-- The messages that the claims of a chain commit to. -/
def commitmentMessages (rules : ChainRules) (node : BlockNode) : Set Bytes :=
  {message | ∃ claim ∈ chainClaims rules node,
    message = commitmentMessage claim.params claim.proof}

variable {sha3 : Bytes → FixedBytes 32}

theorem injOn_commitmentMessages
    (distinct : ∀ first ∈ chainClaims rules node, ∀ second ∈ chainClaims rules node,
      sha3 (commitmentMessage first.params first.proof) =
          sha3 (commitmentMessage second.params second.proof) →
        commitmentMessage first.params first.proof = commitmentMessage second.params second.proof) :
    Set.InjOn sha3 (commitmentMessages rules node) := by
  rintro _ ⟨first, firstMember, rfl⟩ _ ⟨second, secondMember, rfl⟩ digests
  exact distinct first firstMember second secondMember digests

/-- A claim is checked against what a request and a coordinator say of a bounty;
neither its outpoint nor its requester counts. -/
theorem validateInferenceBountyClaim_congr
    (request : first.request = second.request)
    (coordinator : first.coordinatorPubKey = second.coordinatorPubKey) :
    validateInferenceBountyClaim sha3 schnorr proof first confirmBlockHash =
      validateInferenceBountyClaim sha3 schnorr proof second confirmBlockHash := by
  obtain ⟨_, _, _, _, _⟩ := first
  obtain ⟨_, _, _, _, _⟩ := second
  obtain ⟨rfl, rfl, rfl⟩ := request
  cases coordinator
  rfl

theorem claimOf_eq_some
    (isClaim : claimOf spendHeight ledger tx txIn = some claim) :
    ∃ coin, ledger txIn.previousOutPoint = some coin ∧
      claim.outPoint = txIn.previousOutPoint ∧ claim.confirmHeight = coin.height ∧
      parseInferenceBountyScript coin.pkScript = some claim.params ∧
      extractInferenceResultProof tx = .ok claim.proof ∧
      inferenceBountyWithinWindow coin.height spendHeight = true := by
  rw [claimOf] at isClaim
  split at isClaim
  · cases isClaim
  · next coin held =>
    split at isClaim
    · next params proof parsed extracted =>
      split at isClaim
      · next within =>
        cases isClaim
        exact ⟨coin, held, rfl, rfl, parsed, extracted, within⟩
      · cases isClaim
    · cases isClaim

theorem validated_of_checkInferenceBountyInput
    (held : entries.unspent txIn.previousOutPoint = some coin)
    (parsed : parseInferenceBountyScript coin.pkScript = some params)
    (extracted : extractInferenceResultProof tx = .ok proof)
    (within : inferenceBountyWithinWindow coin.height spendHeight = true)
    (checked : checkInferenceBountyInput sha256d inference tx node spendHeight
      entries unresolved txIn = .ok ()) :
    ∃ confirming, node.ancestor coin.height = some confirming ∧
      validateInferenceBountyClaim inference.sha3 inference.schnorr proof params
        (confirming.hash sha256d) = .ok () := by
  obtain ⟨entry, found, unspent⟩ := Option.bind_eq_some_iff.mp held
  rw [UtxoEntry.unspent] at unspent
  split at unspent
  · cases unspent
  · cases unspent
    rw [checkInferenceBountyInput, found] at checked
    simp only [parsed, bind_eq_ok, present_eq_ok, checkInferenceBountySpend,
      if_pos within, extracted, describe_eq_ok, Except.ok.injEq] at checked
    obtain ⟨confirming, isAncestor, _, rfl, validated⟩ := checked
    exact ⟨confirming, isAncestor, validated⟩

theorem binds_of_validateInferenceBountyClaim
    (validated : validateInferenceBountyClaim sha3 schnorr proof params confirmBlockHash = .ok ()) :
    proof.blockHash = confirmBlockHash ∧
      sha3 (commitmentMessage params proof) = proof.commitmentHash := by
  simp only [validateInferenceBountyClaim, bind_eq_ok, require_eq_ok] at validated
  obtain ⟨_, blockHash, _, commitment, _⟩ := validated
  exact ⟨blockHash, commitment⟩

section Accepted

variable {rules : ChainRules} {inference : InferenceRules} {node : BlockNode} {claim : BountyClaim}

theorem AcceptedChain.binds (accepted : AcceptedChain (rules.withInference inference) node)
    (member : claim ∈ chainClaims (rules.withInference inference) node) :
    (∃ confirming ∈ node.ancestors, confirming.height = claim.confirmHeight ∧
        claim.proof.blockHash = confirming.hash rules.sha256d) ∧
      inference.sha3 (commitmentMessage claim.params claim.proof) = claim.proof.commitmentHash := by
  obtain ⟨⟨block, ledger, tx⟩, listed, claims⟩ := List.mem_flatMap.mp member
  obtain ⟨txIn, input, isClaim⟩ := List.mem_filterMap.mp claims
  obtain ⟨coin, held, _, confirmHeight, parsed, extracted, within⟩ := claimOf_eq_some isClaim
  obtain ⟨entries, fees, next, rfl, checked⟩ := accepted.checkConnectTransaction listed
  simp only [BlockChain.checkConnectTransaction, bind_eq_ok, describe_eq_ok]
    at checked
  obtain ⟨_, _, _, _, _, spends, _⟩ := checked
  obtain ⟨confirming, isAncestor, validated⟩ :=
    validated_of_checkInferenceBountyInput held parsed extracted within
      (forM_eq_ok.mp spends txIn input)
  obtain ⟨below, height⟩ := BlockNode.ancestor_eq_some isAncestor
  obtain ⟨blockHash, commitment⟩ := binds_of_validateInferenceBountyClaim validated
  have onChain : block ∈ node.ancestors := mem_ancestors_of_mem_chainTransactions listed
  exact ⟨⟨confirming, BlockNode.mem_ancestors_trans onChain below,
    height.trans confirmHeight.symm, blockHash⟩, commitment⟩

theorem mem_chainBounties_of_mem_chainClaims (member : claim ∈ chainClaims rules node) :
    ⟨claim.confirmHeight, claim.outPoint, claim.params⟩ ∈ chainBounties rules node := by
  obtain ⟨⟨block, ledger, tx⟩, listed, claims⟩ := List.mem_flatMap.mp member
  obtain ⟨txIn, _, isClaim⟩ := List.mem_filterMap.mp claims
  obtain ⟨coin, held, outPoint, confirmHeight, parsed, _⟩ := claimOf_eq_some isClaim
  obtain ⟨creator, created, creates⟩ := created_of_mem_chainTransactions listed held
  obtain ⟨⟨createdPoint, txOut⟩, spendable, same⟩ := List.mem_map.mp creates
  obtain ⟨rfl, rfl⟩ := Prod.mk.inj same
  refine List.mem_flatMap.mpr ⟨creator, created, ?_⟩
  refine List.mem_filterMap.mpr ⟨(txIn.previousOutPoint, txOut), spendable, ?_⟩
  change parseInferenceBountyScript txOut.pkScript = some claim.params at parsed
  simp only [parsed, Option.map_some, outPoint, confirmHeight, newCoin]

theorem outPoint_eq_of_proof_eq
    (accepted : AcceptedChain (rules.withInference inference) node)
    (headers : Set.InjOn rules.sha256d (headerMessages node))
    (commitments : Set.InjOn inference.sha3
      (commitmentMessages (rules.withInference inference) node))
    (distinct : OneBountyPerRequest (rules.withInference inference) node)
    (firstMember : first ∈ chainClaims (rules.withInference inference) node)
    (secondMember : second ∈ chainClaims (rules.withInference inference) node)
    (proofs : first.proof = second.proof) : first.outPoint = second.outPoint := by
  obtain ⟨⟨firstBlock, firstBelow, firstHeight, firstHash⟩, firstCommitment⟩ :=
    accepted.binds firstMember
  obtain ⟨⟨secondBlock, secondBelow, secondHeight, secondHash⟩, secondCommitment⟩ :=
    accepted.binds secondMember
  have block : firstBlock = secondBlock := accepted.eq_of_hash_eq headers firstBelow secondBelow
      (firstHash.symm.trans ((congrArg _ proofs).trans secondHash))
  have heights : first.confirmHeight = second.confirmHeight := by
    rw [← firstHeight, ← secondHeight, block]
  have messages : commitmentMessage first.params first.proof =
      commitmentMessage second.params second.proof :=
    commitments ⟨first, firstMember, rfl⟩ ⟨second, secondMember, rfl⟩
      (firstCommitment.trans ((congrArg _ proofs).trans secondCommitment.symm))
  rw [proofs] at messages
  exact distinct _ (mem_chainBounties_of_mem_chainClaims firstMember) _
    (mem_chainBounties_of_mem_chainClaims secondMember) heights
    (request_eq_of_commitmentMessage_eq messages)

end Accepted

/-- A proof releases one bounty only, where no block creates two bounties for one
request; of two such bounties with one coordinator, what claims one claims the
other. -/
theorem proof_releases_one_bounty (rules : ChainRules) (inference : InferenceRules)
    (node : BlockNode) (accepted : AcceptedChain (rules.withInference inference) node)
    (headers : Set.InjOn rules.sha256d (headerMessages node))
    (commitments : Set.InjOn inference.sha3
      (commitmentMessages (rules.withInference inference) node)) :
    (OneBountyPerRequest (rules.withInference inference) node →
      ∀ first ∈ chainClaims (rules.withInference inference) node,
        ∀ second ∈ chainClaims (rules.withInference inference) node,
          first.outPoint ≠ second.outPoint → first.proof ≠ second.proof) ∧
    ∀ proof params other confirmBlockHash, InferenceBountyParams.request params = other.request →
        params.coordinatorPubKey = other.coordinatorPubKey →
          validateInferenceBountyClaim inference.sha3 inference.schnorr proof params
              confirmBlockHash =
            validateInferenceBountyClaim inference.sha3 inference.schnorr proof other
              confirmBlockHash := by
  refine ⟨?_, ?_⟩
  · intro distinct first firstMember second secondMember outPoints proofs
    exact outPoints (outPoint_eq_of_proof_eq accepted headers commitments distinct
      firstMember secondMember proofs)
  · intro proof params other confirmBlockHash request coordinator
    exact validateInferenceBountyClaim_congr request coordinator

namespace SimNetBounties

open SimNetExample (genesisBlock genesisHash genesisHeader powLimitBits header withHeader)
open TwoBlocks (payout coinbase firstTxid secondTxid thirdTxid)

def workerKey : FixedBytes 32 :=
  .ofNat 32 0x774ae7f858a9411e5ef4246b70c65aac5649980be5c17891bbec17895da008cb

def coordinatorKey : FixedBytes 32 :=
  .ofNat 32 0xd01115d548e7561b15c38f004d734633687cf4419620095bc5b0f47070afe85a

def firstRequester : FixedBytes 32 :=
  .ofNat 32 0xf28773c2d975288bc7d1d205c3748651b075fbc6610e58cddeeddf8f19405aa8

def secondRequester : FixedBytes 32 :=
  .ofNat 32 0x499fdf9e895e719cfd64e67f07d38e3226aa7b63678949e6e49b241a60e823e4

def promptHash : FixedBytes 32 :=
  .ofNat 32 0xdfbbece7756a2361d0561d1e93a45ad70b5f5c8dd5446c062b6c276e24ed3d8d

def resultHash : FixedBytes 32 :=
  .ofNat 32 0x75a77133602175b30db81f198062cdf2cb6d02a4a6da2e2c25187a3b91197363

def firstHash : Hash :=
  .ofNat 32 0x9485e0f58922b89cfc81cfa5b9f3f42a86d5f1598ff7b501ca5e762ad51ab484

def firstHeader : BlockHeader :=
  header genesisHash firstTxid 1776675601 powLimitBits

def params (requester : FixedBytes 32) (nonce : UInt64) : InferenceBountyParams where
  requesterPubKey := requester
  coordinatorPubKey := coordinatorKey
  promptHash := promptHash
  nonce := nonce
  modelVersion := 1

def requestTx (secondNonce : UInt64) : MsgTx where
  version := 3
  txIn := [⟨⟨firstTxid, 0⟩, [], [[0x51], [0xc1]], 0xffffffff⟩]
  txOut := [⟨1000000, buildInferenceBountyScript (params firstRequester 7)⟩,
    ⟨1000000, buildInferenceBountyScript (params secondRequester secondNonce)⟩,
    ⟨249998000000, payout⟩]
  lockTime := 0

def claimTx (proof : InferenceResultProof) (bounties : List OutPoint) (value : Int64) : MsgTx where
  version := 4
  txIn := bounties.map fun bounty => ⟨bounty, [], [], 0xffffffff⟩
  txOut := [⟨0, inferenceProofOpReturnPrefix ++ proof.serialise⟩,
    ⟨value, proof.workerAddress.bytes⟩]
  lockTime := 0

def proof (commitmentHash : FixedBytes 32) (blockHash : Hash)
    (signature coordinatorSignature : FixedBytes 64) : InferenceResultProof where
  commitmentHash := commitmentHash
  resultHash := resultHash
  workerAddress := .copy 34 ([0x51, 0x20] ++ workerKey.bytes)
  blockHash := blockHash
  signature := signature
  coordinatorSignature := coordinatorSignature

/-- The value of a function that is known on finitely many messages. -/
def lookup (table : List (Bytes × FixedBytes 32)) (message : Bytes) : FixedBytes 32 :=
  ((table.find? fun entry => entry.1 = message).map Prod.snd).getD (.zero 32)

def rules (hashes : List (Bytes × Hash)) : ChainRules :=
  committingRules { SimNetExample.rules with
    coinbaseMaturity := 1
    sha256d := lookup ([(writeBlockHeader genesisHeader, genesisHash),
      (writeBlockHeader firstHeader, firstHash),
      ((coinbase 1).serializeNoWitness, firstTxid),
      ((coinbase 2).serializeNoWitness, secondTxid),
      ((coinbase 3).serializeNoWitness, thirdTxid)] ++ hashes) }

def inference (digests : List (Bytes × FixedBytes 32)) (schnorr : Schnorr) : InferenceRules where
  sha3 := lookup digests
  schnorr := schnorr
  computeTaprootKeyNoScript := fun _ => .zero 32
  getScriptClass := fun script =>
    if script.length = 34 ∧ script.take 2 = [0x51, 0x20] then .witnessV1TaprootTy
    else if script.length = 34 ∧ script.take 2 = [0x52, 0x20] then
      .witnessV2MerkleRootTy
    else if script.head? = some 0x6a then .nullDataTy
    else .nonStandardTy
  maxSupportedTxVersion := 5
  targetTimePerBlock := 194
  targetTimePerBlock_pos := targetTime_pos

namespace SharedNonce

def requestTxid : Hash :=
  .ofNat 32 0xbe6305ca2bddb2503f5d2165573f6e231390b2fd475bbd5a5ec2aebc62807b7c

def claimTxid : Hash :=
  .ofNat 32 0xe79a60b0db05b3c118214feb8922c15a614cf424abc4d191b060ba0753777a01

def secondRoot : Hash :=
  .ofNat 32 0xc87e1379cb3a5213626434d04832e4ae21e15f23c17cc16521f57a2ca6fb9c1e

def thirdRoot : Hash :=
  .ofNat 32 0x85dcb766beb70edddaa87ac59a1b1e39d77382cfa66f078395cfe9dd05717ebb

def secondHash : Hash :=
  .ofNat 32 0x12674fae4de49413bb11f0f1ee08abbf908bd7bcdd8d5fd46b7792ece4a87846

def thirdHash : Hash :=
  .ofNat 32 0x4cf172623c82329fd420583aa06ab11d1e3b17a3128c2338e9b3ee51bac7429f

def commitmentHash : FixedBytes 32 :=
  .ofNat 32 0xd98e967de6219189acbcb76b4e80196611a1157438991ce8062ae6baf3c7f044

def signature : FixedBytes 64 :=
  .ofNat 64 0xa6d53194488af0e1c8562a706828f59597d4074d6183282c02f75525616d3e397c3518dbfd3d874f6e80791650a45c35cc3d82f4fc8a9bcd8847cdca6b69495a

def attestation : FixedBytes 64 :=
  .ofNat 64 0x4fb00ca7644ecb7b2842356d83a6fca56ff75974805dc962b0a141e08070463f6ae43896960fad01bc67ceeb62a374dc246c4ab7a087a2726e0abe485e2e99ea

def resultProof : InferenceResultProof :=
  proof commitmentHash secondHash signature attestation

def releaseTx : MsgTx :=
  claimTx resultProof [⟨requestTxid, 0⟩, ⟨requestTxid, 1⟩] 2000000

def secondHeader : BlockHeader :=
  header firstHash secondRoot 1776675602 powLimitBits

def thirdHeader : BlockHeader :=
  header secondHash thirdRoot 1776675603 powLimitBits

def node : BlockNode :=
  .child (.child (.child (.genesis genesisBlock) (withHeader firstHeader [coinbase 1]))
    (withHeader secondHeader [coinbase 2, requestTx 7]))
    (withHeader thirdHeader [coinbase 3, releaseTx])

def chainRules : ChainRules :=
  rules [(writeBlockHeader secondHeader, secondHash), (writeBlockHeader thirdHeader, thirdHash),
    ((requestTx 7).serializeNoWitness, requestTxid), (releaseTx.serializeNoWitness, claimTxid),
    (secondTxid.bytes ++ requestTxid.bytes, secondRoot),
    (thirdTxid.bytes ++ claimTxid.bytes, thirdRoot)]

def inferenceRules : InferenceRules :=
  inference [(commitmentMessage (params firstRequester 7) resultProof, commitmentHash)]
    (.listed [(signature.bytes, commitmentHash.bytes, workerKey.bytes),
      (attestation.bytes, commitmentHash.bytes, coordinatorKey.bytes)] (by decide +kernel))

theorem accepted : AcceptedChain (chainRules.withInference inferenceRules) node :=
  @AcceptedChain.of_connectChain _ _ 1776675700 (by decide +kernel)

end SharedNonce

end SimNetBounties

open SimNetBounties SharedNonce in
/-- One transaction takes both bounties with one proof. -/
theorem one_proof_releases_two_bounties :
    AcceptedChain (chainRules.withInference inferenceRules) node ∧
    Set.InjOn chainRules.sha256d (headerMessages node) ∧ Set.InjOn inferenceRules.sha3
      (commitmentMessages (chainRules.withInference inferenceRules) node) ∧
    ∃ first ∈ chainClaims (chainRules.withInference inferenceRules) node,
      ∃ second ∈ chainClaims (chainRules.withInference inferenceRules) node,
        first.outPoint ≠ second.outPoint ∧
        first.params.requesterPubKey ≠ second.params.requesterPubKey ∧
        first.proof = second.proof := by
  have claims : chainClaims (chainRules.withInference inferenceRules) node =
      [⟨⟨requestTxid, 0⟩, params firstRequester 7, 2, resultProof⟩,
        ⟨⟨requestTxid, 1⟩, params secondRequester 7, 2, resultProof⟩] ∧
      (node.ancestors.map (BlockNode.hash chainRules.sha256d)).Nodup ∧
      firstRequester ≠ secondRequester := by
    decide +kernel
  obtain ⟨claims, hashes, requesters⟩ := claims
  refine ⟨accepted, injOn_headerMessages hashes, injOn_commitmentMessages ?_, ?_⟩
  · rw [claims]
    intro first firstMember second secondMember _
    simp only [List.mem_cons, List.not_mem_nil, or_false] at firstMember secondMember
    rcases firstMember with rfl | rfl <;> rcases secondMember with rfl | rfl <;> rfl
  · rw [claims]
    refine ⟨_, .head _, _, .tail _ (.head _), ?_⟩
    exact ⟨by simp, requesters, rfl⟩

namespace SimNetBounties.SeparateNonces

open SimNetExample (genesisBlock powLimitBits header withHeader)
open TwoBlocks (coinbase secondTxid thirdTxid)

def requestTxid : Hash :=
  .ofNat 32 0xf9689701cccbda363651f09b0ff0f5af68fb880f88b0acbbcd37f04c37cc3836

def firstClaimTxid : Hash :=
  .ofNat 32 0x6302846892a16866c1279ef1e571954f2fc3adabd29c46a6ba9eb1a0afee63d1

def secondClaimTxid : Hash :=
  .ofNat 32 0x7078e74d18419a0744f0bfd5b1c7e977a7e8ee804dfe3598a9da54280e8e086f

def secondRoot : Hash :=
  .ofNat 32 0x626e1673433d940d5f4587ef61aebcfa1057c0b9607006bf427fc5648f6f489a

def leftBranch : Hash :=
  .ofNat 32 0x4a04c03c5ae9f46ee2b4cfa176d5e240fad32684fb946dcf72d25eafa08afbba

def rightBranch : Hash :=
  .ofNat 32 0x0533d063b905a122ace6ddf68b7105c1b4b20e0c7f8fc042cce9701d92b6b690

def thirdRoot : Hash :=
  .ofNat 32 0xca7bf5c60a892e89ff9f29938b064e070a1f81e2fd7df7df5c937d7acd7a1efc

def secondHash : Hash :=
  .ofNat 32 0xf5c527ca1fedabe0c7ac3da16d6452b34feda7e923cd4025f242d627bc7068b6

def thirdHash : Hash :=
  .ofNat 32 0xd0b1876ffcfa408e4d6aa5452b2ef943ac2fd0de7c44769e731f04817f676152

def firstCommitment : FixedBytes 32 :=
  .ofNat 32 0x7fbf1cdeb49c22d1c9512c7bf35b54d9295ac425dcf15a295641b966d5021512

def secondCommitment : FixedBytes 32 :=
  .ofNat 32 0x76c5bb15015eb2f8d54e16cfcc600a838329d2518323578bd46a78c7e1870dcf

def firstSignature : FixedBytes 64 :=
  .ofNat 64 0x086ebb9a9b4384ad5e02fe0b42685484f3cb44b970e53b801aee21e5821786545debd1a126e74c9b4a579be0607728ef0b1aace9729d0d22364128a5254e217e

def firstAttestation : FixedBytes 64 :=
  .ofNat 64 0x0dd15dc3ea47cd1b22fc039484c6d3780a3fab89d1816826f5bf274ff93b5b501e596ebbb956b2b8b09ced3a3aabaf06a912a34773887705bf83993453bdf108

def secondSignature : FixedBytes 64 :=
  .ofNat 64 0x68f92a2bba9b76efaeb7b53d8cd90e8a0fcc0c92878dc210f1b71cbc70af8b4448c647af935de2dc24d1122a099f76cb1f243b9b843f32fecae1adee5a55814c

def secondAttestation : FixedBytes 64 :=
  .ofNat 64 0xda54db28e231e3ecb8e89d32d80b88a8669b44ff4b509773561ddc5c2c79a469450c163ddbc416c92f9121c6f97be2e6eff3a978ef529d0ca9effdda5e8adabe

def firstProof : InferenceResultProof :=
  proof firstCommitment secondHash firstSignature firstAttestation

def secondProof : InferenceResultProof :=
  proof secondCommitment secondHash secondSignature secondAttestation

def firstClaimTx : MsgTx :=
  claimTx firstProof [⟨requestTxid, 0⟩] 1000000

def secondClaimTx : MsgTx :=
  claimTx secondProof [⟨requestTxid, 1⟩] 1000000

def secondHeader : BlockHeader :=
  header firstHash secondRoot 1776675602 powLimitBits

def thirdHeader : BlockHeader :=
  header secondHash thirdRoot 1776675603 powLimitBits

def node : BlockNode :=
  .child (.child (.child (.genesis genesisBlock) (withHeader firstHeader [coinbase 1]))
    (withHeader secondHeader [coinbase 2, requestTx 8]))
    (withHeader thirdHeader [coinbase 3, firstClaimTx, secondClaimTx])

def chainRules : ChainRules :=
  rules [(writeBlockHeader secondHeader, secondHash), (writeBlockHeader thirdHeader, thirdHash),
    ((requestTx 8).serializeNoWitness, requestTxid),
    (firstClaimTx.serializeNoWitness, firstClaimTxid),
    (secondClaimTx.serializeNoWitness, secondClaimTxid),
    (secondTxid.bytes ++ requestTxid.bytes, secondRoot),
    (thirdTxid.bytes ++ firstClaimTxid.bytes, leftBranch),
    (secondClaimTxid.bytes ++ secondClaimTxid.bytes, rightBranch),
    (leftBranch.bytes ++ rightBranch.bytes, thirdRoot)]

def inferenceRules : InferenceRules :=
  inference [(commitmentMessage (params firstRequester 7) firstProof, firstCommitment),
      (commitmentMessage (params secondRequester 8) secondProof, secondCommitment)]
    (.listed [(firstSignature.bytes, firstCommitment.bytes, workerKey.bytes),
      (firstAttestation.bytes, firstCommitment.bytes, coordinatorKey.bytes),
      (secondSignature.bytes, secondCommitment.bytes, workerKey.bytes),
      (secondAttestation.bytes, secondCommitment.bytes, coordinatorKey.bytes)] (by decide +kernel))

theorem accepted : AcceptedChain (chainRules.withInference inferenceRules) node :=
  @AcceptedChain.of_connectChain _ _ 1776675700 (by decide +kernel)

end SimNetBounties.SeparateNonces

open SimNetBounties SeparateNonces in
/-- Two requests of one block with different nonces need two proofs. -/
theorem proof_releases_one_bounty_simNet :
    (⟨⟨requestTxid, 0⟩, params firstRequester 7, 2, firstProof⟩ : BountyClaim) ∈
        chainClaims (chainRules.withInference inferenceRules) node ∧
      ⟨⟨requestTxid, 1⟩, params secondRequester 8, 2, secondProof⟩ ∈
        chainClaims (chainRules.withInference inferenceRules) node ∧ firstProof ≠ secondProof := by
  have claims : chainClaims (chainRules.withInference inferenceRules) node =
      [⟨⟨requestTxid, 0⟩, params firstRequester 7, 2, firstProof⟩,
        ⟨⟨requestTxid, 1⟩, params secondRequester 8, 2, secondProof⟩] ∧
      (node.ancestors.map (BlockNode.hash chainRules.sha256d)).Nodup ∧
      OneBountyPerRequest (chainRules.withInference inferenceRules) node ∧
      firstCommitment ≠ secondCommitment ∧
      inferenceRules.sha3 (commitmentMessage (params firstRequester 7) firstProof) =
        firstCommitment ∧
      inferenceRules.sha3 (commitmentMessage (params secondRequester 8) secondProof) =
        secondCommitment := by
    decide +kernel
  obtain ⟨claims, hashes, distinct, commitments, firstDigest, secondDigest⟩ := claims
  have injective : Set.InjOn inferenceRules.sha3
      (commitmentMessages (chainRules.withInference inferenceRules) node) := by
    apply injOn_commitmentMessages
    rw [claims]
    intro first firstMember second secondMember digests
    simp only [List.mem_cons, List.not_mem_nil, or_false] at firstMember secondMember
    rcases firstMember with rfl | rfl <;> rcases secondMember with rfl | rfl
    · rfl
    · exact absurd (firstDigest.symm.trans (digests.trans secondDigest)) commitments
    · exact absurd (firstDigest.symm.trans (digests.symm.trans secondDigest)) commitments
    · rfl
  have firstMember : (⟨⟨requestTxid, 0⟩, params firstRequester 7, 2, firstProof⟩ :
      BountyClaim) ∈ chainClaims (chainRules.withInference inferenceRules) node := by
    rw [claims]
    exact .head _
  have secondMember : (⟨⟨requestTxid, 1⟩, params secondRequester 8, 2, secondProof⟩ :
      BountyClaim) ∈ chainClaims (chainRules.withInference inferenceRules) node := by
    rw [claims]
    exact .tail _ (.head _)
  refine ⟨firstMember, secondMember, ?_⟩
  exact (proof_releases_one_bounty chainRules inferenceRules node accepted
    (injOn_headerMessages hashes) injective).1 distinct _ firstMember _ secondMember (by simp)

end ModelOS.BlockChain
