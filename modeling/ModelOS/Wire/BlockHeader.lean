import ModelOS.Wire.Tx

namespace ModelOS.Wire

open Data

/-! Block headers and certificates.  A header that came over the wire has a
whole-second timestamp of 32 bits. -/

structure BlockHeader where
  version : Int32
  prevBlock : Hash
  merkleRoot : Hash
  timestamp : UInt32
  bits : UInt32
  proofCommitment : Hash
deriving DecidableEq

def maxBlockHeaderPayload : Nat := 12 + 32 * 3

def writeBlockHeader (header : BlockHeader) : Bytes :=
  leBytes 4 header.version.toUInt32.toNat ++ header.prevBlock.bytes ++
    header.merkleRoot.bytes ++ leBytes 4 header.timestamp.toNat ++
    leBytes 4 header.bits.toNat ++ header.proofCommitment.bytes

/-- Read a header from the front of the input; a short input is an error. -/
def readBlockHeader (input : Bytes) : Option BlockHeader :=
  if input.length < maxBlockHeaderPayload then none
  else some {
    version := (UInt32.ofNat (leNat (slice input 0 4))).toInt32
    prevBlock := .copy 32 (slice input 4 32)
    merkleRoot := .copy 32 (slice input 36 32)
    timestamp := UInt32.ofNat (leNat (slice input 68 4))
    bits := UInt32.ofNat (leNat (slice input 72 4))
    proofCommitment := .copy 32 (slice input 76 32) }

@[simp] theorem length_writeBlockHeader (header : BlockHeader) :
    (writeBlockHeader header).length = maxBlockHeaderPayload := by
  simp [writeBlockHeader, maxBlockHeaderPayload]

theorem readBlockHeader_writeBlockHeader (header : BlockHeader) :
    readBlockHeader (writeBlockHeader header) = some header := by
  obtain ⟨version, ⟨prevBlock, prevLength⟩, ⟨merkleRoot, merkleLength⟩,
    timestamp, bits, ⟨proofCommitment, commitmentLength⟩⟩ := header
  simp [readBlockHeader, writeBlockHeader, maxBlockHeaderPayload, slice,
    List.drop_append, FixedBytes.copy, List.drop_eq_nil_of_le, List.take_of_length_le, *]

theorem writeBlockHeader_injective
    (equality : writeBlockHeader first = writeBlockHeader second) : first = second := by
  have read := congrArg readBlockHeader equality
  rw [readBlockHeader_writeBlockHeader, readBlockHeader_writeBlockHeader] at read
  exact Option.some.inj read

def BlockHeader.blockHash (sha256d : Bytes → Hash) (header : BlockHeader) : Hash :=
  sha256d (writeBlockHeader header)

def publicDataSize : Nat := 164

def certificateVersionZK : Nat := 1

structure ZKCertificate where
  hash : Hash
  publicData : FixedBytes publicDataSize
  proofData : Bytes
deriving DecidableEq

def ZKCertificate.commitmentMessage (certificate : ZKCertificate) : Bytes :=
  leBytes 4 certificateVersionZK ++ certificate.publicData.bytes

def ZKCertificate.proofCommitment (sha256d : Bytes → Hash) (certificate : ZKCertificate) : Hash :=
  sha256d certificate.commitmentMessage

theorem commitmentMessage_injective {first second : ZKCertificate}
    (equality : first.commitmentMessage = second.commitmentMessage) :
    first.publicData = second.publicData := by
  apply FixedBytes.ext
  exact List.append_cancel_left equality

end ModelOS.Wire
