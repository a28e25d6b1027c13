import ModelOS.BlockChain.RuleError
import ModelOS.BlockChain.WorkMath
import ModelOS.Data.Checked
import ModelOS.Wire.AuxPow
import ModelOS.ZkPow.Verify

namespace ModelOS.BlockChain

open Data Wire ZkPow

/-! Merged-mining rules, without context and on top of the parent. -/

def auxPowActivationHeight : Int32 := 0

section Rules

variable (sha256d blake3 : Bytes → Hash) (verifier : ProofVerifier)

/-- The certificate of the parent block, built around the parent header. -/
def pearlCertificate (pearlHeader : BlockHeader) (auxPow : AuxPowData) : ZKCertificate where
  hash := pearlHeader.blockHash sha256d
  publicData := auxPow.pearlPublicData
  proofData := auxPow.pearlProofData

def verifyAuxPow (auxPow? : Option AuxPowData) (modelOSBlockHeight : Int32)
    (modelOSStateHash : Hash) (modelOSTarget : Int) (_network : UInt32) : Except String Unit := do
  require (¬ modelOSBlockHeight < auxPowActivationHeight)
    ("auxpow: block " ++ toString modelOSBlockHeight ++
      " is below activation height " ++ toString auxPowActivationHeight)
  let auxPow ← present auxPow? "auxpow: AuxPowData is nil"
  let pearlHeader ← present (readBlockHeader auxPow.pearlHeader.bytes)
    "auxpow: cannot parse Pearl header: unexpected EOF"
  require (writeBlockHeader pearlHeader = auxPow.pearlHeader.bytes)
    "auxpow: Pearl header is non-canonical"
  let pearlCert := pearlCertificate sha256d pearlHeader auxPow
  let mdlBits := bigToCompact modelOSTarget
  describe ("auxpow: Pearl ZK proof invalid or below modelOS target: " ++ ·)
    (verifyZKCertificateInner sha256d verifier pearlHeader pearlCert (some mdlBits))
  require (auxPow.modelOSStateHash = modelOSStateHash)
    ("auxpow: ModelOSStateHash mismatch: proof=" ++
      hashString auxPow.modelOSStateHash ++ " block=" ++ hashString modelOSStateHash)
  require (¬ auxPow.pearlHeight ≤ 0) ("auxpow: PearlHeight " ++ toString auxPow.pearlHeight ++
      " must be positive")
  require (auxPow.pearlCoinbaseTx.length ≠ 0)
    "auxpow: PearlCoinbaseTx is missing — coinbase commitment unverifiable"
  require (containsModelosCommitment auxPow.pearlCoinbaseTx auxPow.modelOSStateHash).isSome
    ("auxpow: σ_modelos " ++ hashString auxPow.modelOSStateHash ++
      " not found in Pearl coinbase (magic 0x4d444c2a + hash)")
  let coinbaseTxid := sha256d auxPow.pearlCoinbaseTx
  let computedRoot := verifyCoinbaseMerkleRoot sha256d auxPow coinbaseTxid
  require (computedRoot = auxPow.pearlMerkleRoot)
    ("auxpow: coinbase Merkle branch root " ++ hashString computedRoot ++
      " does not match Pearl block MerkleRoot " ++ hashString auxPow.pearlMerkleRoot)

/-- The merged-mining rules of `checkBlockSanity`. -/
def checkBlockSanityAuxPow (network : UInt32) (header : BlockHeader)
    (auxPow? : Option AuxPowData) : Except RuleError Unit :=
  if isAuxPowBlock header then do
    let auxPow ← present auxPow? (ruleError .errBadAuxPoW
      "AuxPoW block (version 0x1101) is missing AuxPowData")
    require (header.proofCommitment = auxPowProofCommitment blake3 auxPow network)
      (ruleError .errBadAuxPoW ("AuxPoW block ProofCommitment does not match AuxPowData " ++
          "(wrong network, tampered proof, or incorrect serialisation)"))
  else
    require auxPow?.isNone (ruleError .errBadAuxPoW
      "non-AuxPoW block carries unexpected AuxPowData")

/-- The merged-mining rules of `checkBlockContext` for a child of a block at
`prevHeight`. -/
def checkBlockContextAuxPow (network : UInt32) (prevHeight : Int32)
    (header : BlockHeader) (auxPow? : Option AuxPowData) : Except RuleError Unit :=
  if isAuxPowBlock header then
    describe (ruleError .errBadAuxPoW) (verifyAuxPow sha256d verifier auxPow? (prevHeight + 1)
        header.prevBlock (compactToBig header.bits) network)
  else .ok ()

structure PassesAuxPowRules (network : UInt32) (prevHeight : Int32)
    (header : BlockHeader) (auxPow : AuxPowData) : Prop where
  isAuxPow : isAuxPowBlock header = true
  sanity : checkBlockSanityAuxPow blake3 network header (some auxPow) = .ok ()
  context : checkBlockContextAuxPow sha256d verifier network prevHeight header
    (some auxPow) = .ok ()

/-- No other block on the same parent passes with the same parent proof. -/
def MintsOneBlock (network : UInt32) (prevHeight : Int32)
    (header : BlockHeader) (auxPow : AuxPowData) : Prop :=
  ∀ header' auxPow', header'.prevBlock = header.prevBlock →
    PassesAuxPowRules sha256d blake3 verifier network prevHeight header' auxPow' →
    auxPow'.pearlHeader = auxPow.pearlHeader → auxPow'.pearlPublicData = auxPow.pearlPublicData →
    auxPow'.pearlProofData = auxPow.pearlProofData → header' = header

end Rules

section Acceptance

variable {sha256d blake3 : Bytes → Hash} {verifier : ProofVerifier}
  {network : UInt32} {auxPow : AuxPowData}

structure Accepts (sha256d : Bytes → Hash) (verifier : ProofVerifier)
    (auxPow : AuxPowData) (height : Int32) (stateHash : Hash) (target : Int) : Prop where
  active : auxPowActivationHeight ≤ height
  proof : ∃ pearlHeader, writeBlockHeader pearlHeader = auxPow.pearlHeader.bytes ∧
    verifyZKCertificateInner sha256d verifier pearlHeader
      (pearlCertificate sha256d pearlHeader auxPow) (some (bigToCompact target)) = .ok ()
  stateHash : auxPow.modelOSStateHash = stateHash
  height : 0 < auxPow.pearlHeight
  committed : (containsModelosCommitment auxPow.pearlCoinbaseTx
    auxPow.modelOSStateHash).isSome = true
  root : verifyCoinbaseMerkleRoot sha256d auxPow (sha256d auxPow.pearlCoinbaseTx) =
    auxPow.pearlMerkleRoot

private theorem nonempty_of_committed {scriptSig : Bytes} {sigma : Hash}
    (committed : (containsModelosCommitment scriptSig sigma).isSome = true) :
    scriptSig.length ≠ 0 := by
  intro empty
  rw [List.length_eq_zero_iff.mp empty] at committed
  cases committed

theorem verifyAuxPow_ok :
    verifyAuxPow sha256d verifier (some auxPow) height stateHash target network = .ok () ↔
      Accepts sha256d verifier auxPow height stateHash target := by
  simp only [verifyAuxPow, bind_eq_ok, require_eq_ok, present_eq_ok,
    describe_eq_ok, Option.some.injEq]
  constructor
  · rintro ⟨_, active, _, rfl, pearlHeader, _, _, canonical, _, proof,
      _, stateHash, _, height, _, _, _, committed, root⟩
    exact ⟨Int32.not_lt.mp active, ⟨pearlHeader, canonical, proof⟩, stateHash,
      Int32.not_le.mp height, committed, root⟩
  · intro accepts
    obtain ⟨pearlHeader, canonical, proof⟩ := accepts.proof
    have read : readBlockHeader auxPow.pearlHeader.bytes = some pearlHeader := by
      rw [← canonical, readBlockHeader_writeBlockHeader]
    exact ⟨(), Int32.not_lt.mpr accepts.active, auxPow, rfl, pearlHeader, read,
      (), canonical, (), proof, (), accepts.stateHash, (),
      Int32.not_le.mpr accepts.height, (), nonempty_of_committed accepts.committed,
      (), accepts.committed, accepts.root⟩

end Acceptance

/-! The state hash ties a parent proof to the parent of the child block; nothing ties it
to the child's own transactions or timestamp. -/

section Minting

variable {sha256d blake3 : Bytes → Hash} {verifier : ProofVerifier}
  {network : UInt32} {prevHeight : Int32} {header : BlockHeader} {auxPow : AuxPowData}

theorem PassesAuxPowRules.remint
    (passes : PassesAuxPowRules sha256d blake3 verifier network prevHeight header auxPow)
    (merkleRoot : Hash) (timestamp : UInt32) :
    PassesAuxPowRules sha256d blake3 verifier network prevHeight
      { header with merkleRoot, timestamp } auxPow where
  isAuxPow := passes.isAuxPow
  sanity := passes.sanity
  context := passes.context

private theorem exists_other_hash (hash : Hash) : ∃ other, other ≠ hash := by
  by_cases zero : hash = .zero 32
  · refine ⟨.ofNat 32 1, ?_⟩
    rw [zero]
    decide
  · exact ⟨.zero 32, Ne.symm zero⟩

/-- No passing block is the only one its parent proof mints. -/
theorem passing_auxpow_block_never_unique
    (passes : PassesAuxPowRules sha256d blake3 verifier network prevHeight header auxPow) :
    ¬ MintsOneBlock sha256d blake3 verifier network prevHeight header auxPow := by
  intro unique
  obtain ⟨merkleRoot, merkleRoot_ne⟩ := exists_other_hash header.merkleRoot
  have equality := unique { header with merkleRoot } auxPow rfl
    (passes.remint merkleRoot header.timestamp) rfl rfl rfl
  exact merkleRoot_ne (congrArg BlockHeader.merkleRoot equality)

end Minting

namespace MergedBlockExample

def prevBlock : Hash := .fill 32 0x22

def coinbaseTx : Bytes :=
  [1, 0, 0, 0, 1] ++ List.replicate 32 0 ++ [0xff, 0xff, 0xff, 0xff, 0x24] ++
    auxPowMagic ++ prevBlock.bytes ++ [0xff, 0xff, 0xff, 0xff, 0, 0, 0, 0, 0]

def coinbaseTxid : Hash :=
  .ofNat 32 0x08c8441b1f09366611b727257bb00d406eeaf1fda728bd9f22038068ae8e75ee

def publicDataCommitment : Hash :=
  .ofNat 32 0x226d463070c061d72a5acd6fd3486f51d9df493b1f346a41aab14ca36c297918

def pearlHeader : BlockHeader where
  version := 0x20000000
  prevBlock := .fill 32 0x55
  merkleRoot := coinbaseTxid
  timestamp := 1700000000
  bits := 0x1d00ffff
  proofCommitment := publicDataCommitment

def pearlHash : Hash :=
  .ofNat 32 0x5683df3e4a0d7a641faa088d4ffb4b2a5b4517c2a04b75be2b70093f545e559a

def auxPow : AuxPowData where
  pearlHeader := ⟨writeBlockHeader pearlHeader, length_writeBlockHeader _⟩
  modelOSStateHash := prevBlock
  pearlHeight := 7
  pearlPublicData := .zero publicDataSize
  pearlProofData := [1]
  pearlCoinbaseTx := coinbaseTx
  coinbaseBranch := []

def sha256d (message : Bytes) : Hash :=
  if message = coinbaseTx then coinbaseTxid
  else if message = leBytes 4 1 ++ List.replicate 164 0 then publicDataCommitment
  else if message = writeBlockHeader pearlHeader then pearlHash
  else .zero 32

def mainNet : UInt32 := 0x4D444C4D

def commitment : Hash :=
  .ofNat 32 0xda64901c058bce9ca72d5319aae34e45485444cc8b5e83e22c046e49656acd64

def blake3 (message : Bytes) : Hash :=
  if message = leBytes 4 mainNet.toNat ++ leBytes 4 0 ++ auxPow.serialise then
    commitment
  else .zero 32

def verifier : ProofVerifier where
  verifyZkProofV2 _ _ _ := (1, "")
  verifyZkProofAuxpowWithNbits header publicData proofBlob nbits :=
    if header = blockHeaderToC pearlHeader ∧ publicData = List.replicate 164 0 ∧ proofBlob = [1] ∧
        nbits = 0x1d00ffff then (0, "")
    else (1, "")

def header : BlockHeader where
  version := 0x1101
  prevBlock := prevBlock
  merkleRoot := .fill 32 0x33
  timestamp := 1700000100
  bits := 0x1d00ffff
  proofCommitment := commitment

def reminted : BlockHeader :=
  { header with
    merkleRoot := .fill 32 0x44
    timestamp := 1700000101 }

private theorem passes_header :
    PassesAuxPowRules sha256d blake3 verifier mainNet 41 header auxPow :=
  ⟨by decide +kernel, by decide +kernel, by decide +kernel⟩

theorem merged_block_not_unique :
    PassesAuxPowRules sha256d blake3 verifier mainNet 41 header auxPow ∧
      ¬ MintsOneBlock sha256d blake3 verifier mainNet 41 header auxPow :=
  ⟨passes_header, passing_auxpow_block_never_unique passes_header⟩

theorem two_merged_blocks_pass :
    PassesAuxPowRules sha256d blake3 verifier mainNet 41 header auxPow ∧
      PassesAuxPowRules sha256d blake3 verifier mainNet 41 reminted auxPow ∧
      reminted.prevBlock = header.prevBlock ∧ reminted.merkleRoot ≠ header.merkleRoot ∧
      reminted.timestamp ≠ header.timestamp := by
  refine ⟨passes_header, ?_, by decide, by decide, by decide⟩
  exact ⟨by decide +kernel, by decide +kernel, by decide +kernel⟩

end MergedBlockExample

end ModelOS.BlockChain
