import ModelOS.ZkPow.PublicParamsCodec

namespace ModelOS.ZkPow

open Data Wire

/-! The verifier behind the foreign function interface hands the parameters, not the
bytes, to the proof system. -/

structure ZKProof where
  powBits : FixedBytes 3
  rateBits : FixedBytes 3
  zeta : FixedBytes 16
  plonky2Proof : Bytes
deriving DecidableEq

def ZKProof.fromBytes (proofData : Bytes) : Except String ZKProof := do
  require (22 ≤ proofData.length) ("proof_data too short: need at least 22 bytes for " ++
      "pow_bits/rate_bits/zeta header")
  return {
    powBits := .copy 3 (slice proofData 0 3)
    rateBits := .copy 3 (slice proofData 3 3)
    zeta := .copy 16 (slice proofData 6 16)
    plonky2Proof := proofData.drop 22 }

inductive VerifyOutcome
  | accepted
  | rejected (error : String)
  | panicked (message : String)
deriving DecidableEq

def maxZkProofSize : Nat := 60000

section Verifier

variable {Cache : Type} (acquireCache : Except String Cache)
  (verifyBlock : Cache → PublicProofParams → ZKProof → Option UInt32 → VerifyOutcome)

def deserializeAndVerify (cache : Cache) (header : IncompleteBlockHeader)
    (publicData proofBlob : Bytes) (nbitsOverride : Option UInt32)
    (derivation : SeedDerivation) : VerifyOutcome :=
  match PublicProofParams.fromWireBytes header derivation publicData with
  | .error error => .rejected error
  | .ok params =>
    match ZKProof.fromBytes proofBlob with
    | .error error => .rejected error
    | .ok zkProof => verifyBlock cache params zkProof nbitsOverride

/-- The first derivation under which the proof verifies decides; the last error
is reported when none does. -/
def tryDerivations (cache : Cache) (header : IncompleteBlockHeader)
    (publicData proofBlob : Bytes) (nbitsOverride : Option UInt32) :
    List SeedDerivation → String → Int32 × String
  | [], lastErr => (1, lastErr)
  | derivation :: derivations, _ =>
    match deserializeAndVerify verifyBlock cache header publicData proofBlob
      nbitsOverride derivation with
    | .accepted => (0, "Proof verified successfully")
    | .rejected error => tryDerivations cache header publicData proofBlob
        nbitsOverride derivations error
    | .panicked message => (2, "Internal panic: " ++ message)

def verifyZkProofInner (header : IncompleteBlockHeader)
    (publicData proofBlob : Bytes) (nbitsOverride : Option UInt32)
    (derivations : List SeedDerivation) : Int32 × String :=
  if proofBlob.length = 0 then (1, "Null or empty proof blob")
  else if maxZkProofSize < proofBlob.length then (1, "ZK Proof too large")
  else if PublicProofParams.isValidWireSize publicData.length = false then
    (1, "invalid public_data_len " ++ toString publicData.length)
  else
    match acquireCache with
    | .error error => (2, error)
    | .ok cache => tryDerivations verifyBlock cache header publicData proofBlob
        nbitsOverride derivations "no seed derivation attempted"

def ffiVerifier : ProofVerifier where
  verifyZkProofV2 header publicData proofBlob :=
    verifyZkProofInner acquireCache verifyBlock header publicData proofBlob none [.legacy]
  verifyZkProofAuxpowWithNbits header publicData proofBlob nbits :=
    verifyZkProofInner acquireCache verifyBlock header publicData proofBlob
      (some nbits) [.salted, .legacy]

end Verifier

def TopKCanonical (data : Bytes) : Prop :=
  readU16 data 20 = 0 → readU16 data 22 = 0

instance (data : Bytes) : Decidable (TopKCanonical data) :=
  inferInstanceAs (Decidable (_ → _))

section Malleability

variable {data : Bytes} {offset : Nat} {header : IncompleteBlockHeader}
  {derivation : SeedDerivation} {params : PublicProofParams} {topK : UInt16}

theorem readU16_eq_zero_iff (bound : offset + 2 ≤ data.length) :
    readU16 data offset = 0 ↔ [0, 0] = slice data offset 2 := by
  constructor
  · intro zero
    rw [← leBytes_readU16 bound, zero]
    rfl
  · intro zeros
    rw [readU16, ← zeros]
    rfl

theorem canonicalData_eq_iff (bound : 24 ≤ data.length) :
    PublicProofParams.canonicalData data = data ↔ TopKCanonical data := by
  have parts : slice data 0 22 ++ slice data 22 2 ++ data.drop 24 = data := by
    rw [slice_append_next rfl]
    exact List.take_append_drop 24 data
  have cancel : PublicProofParams.canonicalData data = data ↔
      writtenTopK data = slice data 22 2 := by
    rw [PublicProofParams.canonicalData]
    nth_rewrite 4 [← parts]
    rw [List.append_left_inj, List.append_right_inj]
  rw [cancel, writtenTopK, TopKCanonical]
  by_cases dense : readU16 data 20 = 0
  · rw [if_pos dense, readU16_eq_zero_iff bound]
    exact ⟨fun zeros _ => zeros, fun zeros => zeros dense⟩
  · rw [if_neg dense]
    exact ⟨fun _ zero => absurd zero dense, fun _ => rfl⟩

theorem toWireBytes_eq_iff
    (decoded : PublicProofParams.fromWireBytes header derivation data = .ok params) :
    params.toWireBytes = .ok data ↔ TopKCanonical data := by
  have length : 164 ≤ data.length := (PublicProofParams.fromWireBytes_ok.mp decoded).1
  rw [PublicProofParams.toWireBytes_fromWireBytes decoded, Except.ok.injEq,
    canonicalData_eq_iff (by omega)]

theorem length_writtenTopK (bound : 24 ≤ data.length) : (writtenTopK data).length = 2 := by
  unfold writtenTopK
  split
  · rfl
  · exact length_slice data 22 2 bound

theorem data_eq_of_canonicalData_eq
    (firstBound : 24 ≤ first.length) (secondBound : 24 ≤ second.length)
    (canonical : PublicProofParams.canonicalData first = PublicProofParams.canonicalData second)
    (topK : readU16 first 22 = readU16 second 22) : first = second := by
  obtain ⟨front, rest⟩ := List.append_inj canonical (by
    rw [List.length_append, List.length_append,
      length_slice first 0 22 (by omega), length_slice second 0 22 (by omega),
      length_writtenTopK firstBound, length_writtenTopK secondBound])
  have low := (List.append_inj front (by
    rw [length_slice first 0 22 (by omega), length_slice second 0 22 (by omega)])).1
  have middle : slice first 22 2 = slice second 22 2 := by
    rw [← leBytes_readU16 firstBound, topK, leBytes_readU16 secondBound]
  calc
    first = slice first 0 22 ++ slice first 22 2 ++ first.drop 24 := by
      rw [slice_append_next rfl]
      exact (List.take_append_drop 24 first).symm
    _ = slice second 0 22 ++ slice second 22 2 ++ second.drop 24 := by
      rw [low, middle, rest]
    _ = second := by
      rw [slice_append_next rfl]
      exact List.take_append_drop 24 second

theorem publicData_eq_iff_topK
    (firstDecoded : PublicProofParams.fromWireBytes firstHeader firstDerivation first = .ok params)
    (secondDecoded : PublicProofParams.fromWireBytes secondHeader
      secondDerivation second = .ok params) :
    first = second ↔ readU16 first 22 = readU16 second 22 := by
  constructor
  · intro equality
    rw [equality]
  · intro topK
    have firstLength : 164 ≤ first.length := (PublicProofParams.fromWireBytes_ok.mp firstDecoded).1
    have secondLength : 164 ≤ second.length :=
      (PublicProofParams.fromWireBytes_ok.mp secondDecoded).1
    apply data_eq_of_canonicalData_eq (by omega) (by omega) _ topK
    apply Except.ok.inj
    rw [← PublicProofParams.toWireBytes_fromWireBytes firstDecoded,
      PublicProofParams.toWireBytes_fromWireBytes secondDecoded]

def withTopK (data : Bytes) (topK : UInt16) : Bytes :=
  slice data 0 22 ++ leBytes 2 topK.toNat ++ data.drop 24

theorem length_withTopK (bound : 24 ≤ data.length) : (withTopK data topK).length = data.length := by
  rw [withTopK, List.length_append, List.length_append, length_leBytes,
    length_slice data 0 22 (by omega), List.length_drop]
  omega

def remintedCertificate (certificate : ZKCertificate) (topK : UInt16)
    (hash : Hash) : ZKCertificate where
  hash := hash
  publicData := ⟨withTopK certificate.publicData.bytes topK, by
    rw [length_withTopK] <;> simp [publicDataSize]⟩
  proofData := certificate.proofData

/-- Public data has one encoding, and one proof mints one native block, exactly
up to the two bytes of an unused `top_k`. -/
theorem one_encoding_iff_topK {Cache : Type} (acquireCache : Except String Cache)
    (verifyBlock : Cache → PublicProofParams → ZKProof → Option UInt32 →
      VerifyOutcome) (sha256d : Bytes → Hash) :
    (∀ header derivation data params,
      PublicProofParams.fromWireBytes header derivation data = .ok params →
        (params.toWireBytes = .ok data ↔ TopKCanonical data)) ∧
    (∀ params : PublicProofParams, params.WellFormed →
      ∃ data, params.toWireBytes = .ok data ∧ PublicProofParams.fromWireBytes params.blockHeader
          params.seedDerivation data = .ok params) ∧
    (∀ (first second : BlockHeader) (firstCertificate secondCertificate : ZKCertificate)
        (nbitsOverride : Option UInt32) (derivation : SeedDerivation) (params : PublicProofParams),
      second = { first with proofCommitment := second.proofCommitment } →
      firstCertificate.proofData = secondCertificate.proofData →
      PublicProofParams.fromWireBytes (blockHeaderToC first) derivation
        firstCertificate.publicData.bytes = .ok params →
      PublicProofParams.fromWireBytes (blockHeaderToC second) derivation
        secondCertificate.publicData.bytes = .ok params →
      Set.InjOn sha256d {firstCertificate.commitmentMessage,
        secondCertificate.commitmentMessage} →
      verifyZKCertificateInner sha256d (ffiVerifier acquireCache verifyBlock)
        first firstCertificate nbitsOverride = .ok () →
      verifyZKCertificateInner sha256d (ffiVerifier acquireCache verifyBlock)
        second secondCertificate nbitsOverride = .ok () →
      (first.proofCommitment = second.proofCommitment ↔
        readU16 firstCertificate.publicData.bytes 22 =
          readU16 secondCertificate.publicData.bytes 22)) := by
  refine ⟨fun _ _ _ _ => toWireBytes_eq_iff,
    fun _ => PublicProofParams.fromWireBytes_toWireBytes, ?_⟩
  intro first second firstCertificate secondCertificate nbitsOverride derivation
    params _ _ firstDecoded secondDecoded collisionFree firstAccepted secondAccepted
  have firstCommitment := (verifyZKCertificateInner_ok.mp firstAccepted).2.1
  have secondCommitment := (verifyZKCertificateInner_ok.mp secondAccepted).2.1
  rw [← publicData_eq_iff_topK firstDecoded secondDecoded, firstCommitment, secondCommitment]
  constructor
  · intro commitments
    have messages : firstCertificate.commitmentMessage = secondCertificate.commitmentMessage :=
      collisionFree (by simp) (by simp) commitments
    rw [commitmentMessage_injective messages]
  · intro publicData
    rw [ZKCertificate.proofCommitment, ZKCertificate.proofCommitment,
      ZKCertificate.commitmentMessage, publicData, ← ZKCertificate.commitmentMessage]

end Malleability

namespace TopKExample

def params : PublicProofParams where
  blockHeader := {
    version := 0x20000000
    prevBlock := .fill 32 0x22
    merkleRoot := .fill 32 0x33
    timestamp := 1700000000
    nbits := 0x1d00ffff }
  seedDerivation := .legacy
  miningConfig := {
    commonDim := 2048
    rank := 128
    mmaType := .int7xInt7ToInt32
    rowsPattern := ⟨⟨8, 2⟩, ⟨64, 2⟩, ⟨128, 1⟩⟩
    colsPattern := ⟨⟨1, 2⟩, ⟨8, 2⟩, ⟨32, 4⟩⟩
    moe := none }
  hashA := .fill 32 0xaa
  hashB := .fill 32 0xbb
  hashJackpot := .fill 32 0xcc
  m := 4096
  n := 4096
  tRows := 0
  tCols := 0
  moe := none

def commitment : Hash :=
  .ofNat 32 0x00201ec4a3cc71274e756c8b23809e5b343edbcf73e2d1ebb92037cba3aeccb1

def blockHash : Hash :=
  .ofNat 32 0xc2f6dcd401b2d425c32209a052681650c9fbf60e1848c773f319140cbd95626b

def otherCommitment : Hash :=
  .ofNat 32 0x74c8e1c7c4158344bac07a2b99e1c7ae8ce5364bd03e3ea4bb9165f42bf310fb

def otherBlockHash : Hash :=
  .ofNat 32 0xac58ab0179c8001599e46462b0d0df88a5251daedb13c94dc7e2fad95498daad

def header : BlockHeader where
  version := 0x20000000
  prevBlock := .fill 32 0x22
  merkleRoot := .fill 32 0x33
  timestamp := 1700000000
  bits := 0x1d00ffff
  proofCommitment := commitment

def certificate : ZKCertificate where
  hash := blockHash
  publicData := ⟨params.coreBytes, params.length_coreBytes⟩
  proofData := List.replicate 22 1

def sha256d (message : Bytes) : Hash :=
  if message = leBytes 4 1 ++ params.coreBytes then commitment
  else if message = writeBlockHeader header then blockHash
  else if message = leBytes 4 1 ++ withTopK params.coreBytes 7 then
    otherCommitment
  else otherBlockHash

def verifyBlock (_ : Unit) (claimed : PublicProofParams) (zkProof : ZKProof)
    (nbitsOverride : Option UInt32) : VerifyOutcome :=
  if claimed = params ∧ ZKProof.fromBytes (List.replicate 22 1) = .ok zkProof ∧
      nbitsOverride = none then .accepted
  else .rejected "invalid proof"

def verifier : ProofVerifier :=
  ffiVerifier (.ok ()) verifyBlock

def otherHeader : BlockHeader :=
  { header with proofCommitment := otherCommitment }

def otherCertificate : ZKCertificate :=
  remintedCertificate certificate 7 otherBlockHash

private theorem wellFormed_params : params.WellFormed :=
  ⟨⟨by decide, by decide, by simp [params]⟩, by decide,
    by decide, by decide, by decide, trivial⟩

private theorem certificate_accepted :
    verifyZKCertificateInner sha256d verifier header certificate none = .ok () := by
  decide +kernel

private theorem otherCertificate_accepted :
    verifyZKCertificateInner sha256d verifier otherHeader otherCertificate none = .ok () := by
  decide +kernel

private theorem certificate_decodes :
    PublicProofParams.fromWireBytes (blockHeaderToC header) .legacy
      certificate.publicData.bytes = .ok params := by
  decide +kernel

private theorem otherCertificate_decodes :
    PublicProofParams.fromWireBytes (blockHeaderToC otherHeader) .legacy
      otherCertificate.publicData.bytes = .ok params := by
  decide +kernel

private theorem sha256d_collisionFree :
    Set.InjOn sha256d {certificate.commitmentMessage,
      otherCertificate.commitmentMessage} := by
  have digests : sha256d certificate.commitmentMessage ≠
      sha256d otherCertificate.commitmentMessage := by
    decide +kernel
  exact Set.injOn_pair.mpr fun equality => absurd equality digests

theorem one_encoding_of_example : params.toWireBytes = .ok certificate.publicData.bytes ∧
      (∃ data, params.toWireBytes = .ok data ∧
        PublicProofParams.fromWireBytes params.blockHeader .legacy data = .ok params) ∧
      header.proofCommitment ≠ otherHeader.proofCommitment := by
  obtain ⟨encoding, roundTrip, blocks⟩ := one_encoding_iff_topK (.ok ()) verifyBlock sha256d
  refine ⟨?_, roundTrip params wellFormed_params, ?_⟩
  · exact (encoding _ _ _ _ certificate_decodes).mpr (by decide)
  · intro commitments
    have topK := (blocks header otherHeader certificate otherCertificate none
      .legacy params rfl rfl certificate_decodes otherCertificate_decodes
      sha256d_collisionFree certificate_accepted otherCertificate_accepted).mp commitments
    exact absurd topK (by decide)

theorem one_proof_mints_two_blocks :
    PublicProofParams.fromWireBytes (blockHeaderToC otherHeader) .legacy
        otherCertificate.publicData.bytes = .ok params ∧
      params.toWireBytes ≠ .ok otherCertificate.publicData.bytes ∧ otherHeader =
        { header with proofCommitment := otherHeader.proofCommitment } ∧
      certificate.proofData = otherCertificate.proofData ∧
      PublicProofParams.fromWireBytes (blockHeaderToC header) .legacy
        certificate.publicData.bytes = .ok params ∧
      verifyZKCertificateInner sha256d verifier header certificate none = .ok () ∧
      verifyZKCertificateInner sha256d verifier otherHeader otherCertificate none = .ok () ∧
      header.proofCommitment ≠ otherHeader.proofCommitment ∧
      header.blockHash sha256d ≠ otherHeader.blockHash sha256d :=
  ⟨otherCertificate_decodes, by decide, rfl, rfl, certificate_decodes,
    certificate_accepted, otherCertificate_accepted, by decide, by decide⟩

end TopKExample

end ModelOS.ZkPow
