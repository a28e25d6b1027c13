import ModelOS.Wire.BlockHeader

namespace ModelOS.ZkPow

open Data Wire

/-! The checks the node makes itself, in front of the proof verifier it calls through
the foreign function interface. -/

structure IncompleteBlockHeader where
  version : UInt32
  prevBlock : FixedBytes 32
  merkleRoot : FixedBytes 32
  timestamp : UInt32
  nbits : UInt32
deriving DecidableEq

/-- Hashes change from wire order to display order. -/
def blockHeaderToC (header : BlockHeader) : IncompleteBlockHeader where
  version := header.version.toUInt32
  prevBlock := ⟨header.prevBlock.bytes.reverse, by simp⟩
  merkleRoot := ⟨header.merkleRoot.bytes.reverse, by simp⟩
  timestamp := header.timestamp
  nbits := header.bits

/-- The foreign verifiers: a result code and the text of the error buffer. -/
structure ProofVerifier where
  verifyZkProofV2 : IncompleteBlockHeader → (publicData proofBlob : Bytes) → Int32 × String
  verifyZkProofAuxpowWithNbits : IncompleteBlockHeader →
    (publicData proofBlob : Bytes) → (nbits : UInt32) → Int32 × String

def hexDigit (value : Nat) : Char :=
  if value < 10 then Char.ofNat (48 + value) else Char.ofNat (87 + value)

/-- Hashes print in hexadecimal with their bytes reversed. -/
def hashString (hash : Hash) : String :=
  String.ofList (hash.bytes.reverse.flatMap fun byte =>
    [hexDigit (byte.toNat / 16), hexDigit (byte.toNat % 16)])

/-- Only the merged-mining path overrides the target. -/
def ProofVerifier.call (verifier : ProofVerifier) (header : BlockHeader)
    (certificate : ZKCertificate) : Option UInt32 → Int32 × String
  | some nbits => verifier.verifyZkProofAuxpowWithNbits (blockHeaderToC header)
      certificate.publicData.bytes certificate.proofData nbits
  | none => verifier.verifyZkProofV2 (blockHeaderToC header)
      certificate.publicData.bytes certificate.proofData

def verificationResult (result : Int32) (msg : String) : Except String Unit :=
  if result = 0 then .ok ()
  else if result = 1 then .error ("proof rejected: " ++ msg)
  else if result = 2 then .error ("verification system error: " ++ msg)
  else .error ("unknown verification result " ++ toString result ++ ": " ++ msg)

def verifyZKCertificateInner (sha256d : Bytes → Hash)
    (verifier : ProofVerifier) (header : BlockHeader)
    (certificate : ZKCertificate) (nbitsOverride : Option UInt32) : Except String Unit :=
  let blockHash := header.blockHash sha256d
  if certificate.hash ≠ blockHash then
    .error ("block hash mismatch: certificate has " ++
      hashString certificate.hash ++ ", header has " ++ hashString blockHash)
  else
    let certCommitment := certificate.proofCommitment sha256d
    if header.proofCommitment ≠ certCommitment then
      .error ("proof commitment mismatch: header has " ++
        hashString header.proofCommitment ++ ", certificate has " ++ hashString certCommitment)
    else if certificate.proofData.length = 0 then .error "empty proof data"
    else
      let (result, msg) := verifier.call header certificate nbitsOverride
      verificationResult result msg

theorem verificationResult_ok :
    verificationResult result msg = .ok () ↔ result = 0 := by
  unfold verificationResult
  constructor
  · intro accepted
    by_contra nonzero
    rw [if_neg nonzero] at accepted
    split at accepted
    · cases accepted
    · split at accepted <;> cases accepted
  · intro zero
    rw [if_pos zero]

theorem verifyZKCertificateInner_ok :
    verifyZKCertificateInner sha256d verifier header certificate nbitsOverride = .ok () ↔
      certificate.hash = header.blockHash sha256d ∧
        header.proofCommitment = certificate.proofCommitment sha256d ∧ certificate.proofData ≠ [] ∧
        (verifier.call header certificate nbitsOverride).1 = 0 := by
  unfold verifyZKCertificateInner
  by_cases hash : certificate.hash = header.blockHash sha256d
  · by_cases commitment : header.proofCommitment = certificate.proofCommitment sha256d
    · by_cases empty : certificate.proofData = []
      · simp [hash, commitment, empty]
      · simp [hash, commitment, empty, verificationResult_ok]
    · simp [hash, commitment]
  · simp [hash]

end ModelOS.ZkPow
