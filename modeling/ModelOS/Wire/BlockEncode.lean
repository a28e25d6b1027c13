import ModelOS.Data.Checked
import ModelOS.Wire.Message
import ModelOS.Wire.TxRoundTrip

namespace ModelOS.Wire

open Data

def certificateMaxSize : Nat := 65000

def ZKCertificate.serialize (certificate : ZKCertificate) : Bytes :=
  certificate.hash.bytes ++ certificate.publicData.bytes ++
    leBytes 4 certificate.proofData.length ++ certificate.proofData

def ZKCertificate.serializedSize (certificate : ZKCertificate) : Nat :=
  32 + publicDataSize + 4 + certificate.proofData.length

def prlEncodeCertificate : Option ZKCertificate → Except WireError Bytes
  | none => .ok (leBytes 4 0)
  | some certificate => do
      let serializeSize := 4 + certificate.serializedSize
      require (serializeSize ≤ certificateMaxSize) (.plain
        ("certificate too large: " ++ toString serializeSize ++ " bytes (max 65000)"))
      return leBytes 4 certificateVersionZK ++ certificate.serialize

def prlEncodeHeader (msgHeader : MsgHeader) : Except WireError Bytes := do
  let certificate ← prlEncodeCertificate msgHeader.certificate
  return certificate ++ writeBlockHeader msgHeader.blockHeader

def writeBlockAuxPow (missing : WireError) (header : BlockHeader)
    (auxPow : Option AuxPowData) : Except WireError Bytes :=
  if isAuxPowBlock header then do
    let auxPow ← present auxPow missing
    return auxPow.serialise
  else return []

def prlEncodeBlock (enc : MessageEncoding) (msg : MsgBlock) : Except WireError Bytes := do
  let msgHeader ← prlEncodeHeader msg.msgHeader
  let auxPow ← writeBlockAuxPow (.message "MsgBlock.PrlEncode"
    "auxpow: AuxPoW block missing AuxPowData") msg.msgHeader.blockHeader msg.auxPow
  return msgHeader ++ auxPow ++ writeCounted (prlEncodeTx enc) msg.transactions

def certificateSerializeSize : Option ZKCertificate → Nat
  | none => 4
  | some certificate => 4 + certificate.serializedSize

def MsgHeader.serializeSize (msgHeader : MsgHeader) : Nat :=
  maxBlockHeaderPayload + certificateSerializeSize msgHeader.certificate

def AuxPowData.serialiseSize (auxPow : AuxPowData) : Nat :=
  pearlHeaderSize + 32 + 4 + publicDataSize + 4 + auxPow.pearlProofData.length +
    4 + auxPow.pearlCoinbaseTx.length + 1 + auxPow.coinbaseBranch.length * 33

def auxPowSerialiseSize : Option AuxPowData → Nat
  | none => 0
  | some auxPow => auxPow.serialiseSize

def MsgBlock.serializeSize (msg : MsgBlock) : Nat :=
  msg.msgHeader.serializeSize + varIntSerializeSize (UInt64.ofNat msg.transactions.length) +
    auxPowSerialiseSize msg.auxPow + (msg.transactions.map MsgTx.serializeSize).sum

def MsgBlock.serialize (msg : MsgBlock) : Except WireError Bytes :=
  prlEncodeBlock witnessEncoding msg

def MsgBlock.deserialize : Decoder WireError MsgBlock :=
  prlDecodeBlock witnessEncoding

structure AuxPowData.Readable (auxPow : AuxPowData) : Prop where
  bits : readU32 auxPow.pearlHeader.bytes 72 ≠ 0
  sign : readU32 auxPow.pearlHeader.bytes 72 &&& 0x00800000 = 0
  positive : 0 < auxPow.pearlHeight
  height : auxPow.pearlHeight ≤ maxPearlHeight
  proofData : auxPow.pearlProofData ≠ []
  proofSize : auxPow.pearlProofData.length ≤ maxZKProofSize
  coinbaseSize : auxPow.pearlCoinbaseTx.length ≤ 1000000
  branch : auxPow.coinbaseBranch.length ≤ maxCoinbaseBranchDepth

/-- Merged-mining data belongs to the headers that are marked for it. -/
structure Framed (msgHeader : MsgHeader) (auxPow : Option AuxPowData) : Prop where
  certificate : ∀ certificate ∈ msgHeader.certificate, certificate.proofData.length ≤ maxZKProofSize
  marked : isAuxPowBlock msgHeader.blockHeader → ∃ data, auxPow = some data
  unmarked : isAuxPowBlock msgHeader.blockHeader = false → auxPow = none
  readable : ∀ data ∈ auxPow, data.Readable

section Decodes

variable {capacity : Nat}

theorem decodes_readUint32 (small : value < 2 ^ 32) :
    readUint32.Decodes capacity (leBytes 4 value) (UInt32.ofNat value) := by
  apply Decoder.Decodes.of_run
  intro slab rest
  have read := @run_readUint32 capacity slab rest (UInt32.ofNat value)
  rwa [UInt32.toNat_ofNat_of_lt' small] at read

theorem decodes_readHash (hash : Hash) : readHash.Decodes capacity hash.bytes hash :=
  .of_run (run_readHash hash)

theorem decodes_readFixed (value : FixedBytes size) :
    (readFixed size).Decodes capacity value.bytes value := by
  apply Decoder.Decodes.of_run
  intro slab rest
  rw [readFixed, Decoder.run_bind_done (run_readFull value.length_bytes)]
  simp

theorem decodes_readFull (length : bytes.length = size) :
    (readFull size).Decodes capacity bytes bytes :=
  .of_run (run_readFull length)

theorem toNat_ofNat_proofLen {bytes : Bytes}
    (allowed : bytes.length ≤ limit) (small : limit < 2 ^ 32) :
    (UInt32.ofNat bytes.length).toNat = bytes.length :=
  UInt32.toNat_ofNat_of_lt' (Nat.lt_of_le_of_lt allowed small)

theorem decodes_readZKCertificate
    (allowed : certificate.proofData.length ≤ maxZKProofSize) :
    readZKCertificate.Decodes capacity certificate.serialize certificate := by
  have length := toNat_ofNat_proofLen allowed (by decide)
  rw [ZKCertificate.serialize, List.append_assoc, List.append_assoc]
  refine (decodes_readHash _).bind ((decodes_readFixed _).bind
    ((decodes_readUint32 (Nat.lt_of_le_of_lt allowed (by decide))).bind ?_))
  apply Decoder.Decodes.ensure (by rw [length]; exact allowed)
  exact (decodes_readFull length.symm).map fun proofData =>
    { certificate with proofData }

theorem prlEncodeCertificate_of_allowed
    (allowed : certificate.proofData.length ≤ maxZKProofSize) :
    prlEncodeCertificate (some certificate) =
      .ok (leBytes 4 certificateVersionZK ++ certificate.serialize) := by
  have limit : maxZKProofSize = 60000 := rfl
  have fits : 4 + certificate.serializedSize ≤ certificateMaxSize := by
    rw [ZKCertificate.serializedSize, publicDataSize, certificateMaxSize]
    omega
  simp only [prlEncodeCertificate, bind_eq_ok, require_eq_ok]
  exact ⟨(), fits, rfl⟩

theorem decodes_readMsgCertificate {certificate : Option ZKCertificate}
    (allowed : ∀ present ∈ certificate, present.proofData.length ≤ maxZKProofSize) :
    ∃ bytes, prlEncodeCertificate certificate = .ok bytes ∧
      readMsgCertificate.Decodes capacity bytes certificate := by
  cases certificate with
  | none =>
    refine ⟨leBytes 4 0 ++ [], rfl, ?_⟩
    apply (decodes_readUint32 (by decide)).bind
    rw [if_pos (by decide)]
    exact .pure none
  | some certificate =>
    have small := allowed certificate rfl
    refine ⟨_, prlEncodeCertificate_of_allowed small, ?_⟩
    apply (decodes_readUint32 (by decide)).bind
    rw [if_neg (by decide), if_pos (by decide)]
    exact (decodes_readZKCertificate small).map some

theorem decodes_readBlockHeaderBuf (header : BlockHeader) :
    readBlockHeaderBuf.Decodes capacity (writeBlockHeader header) header := by
  have word : ∀ value : UInt32,
      readUint32.Decodes capacity (leBytes 4 value.toNat) value :=
    fun value => .of_run (run_readUint32 value)
  rw [writeBlockHeader]
  simp only [List.append_assoc]
  apply (word _).bind
  apply (decodes_readHash _).bind
  apply (decodes_readHash _).bind
  apply (word _).bind
  apply (word _).bind
  exact (decodes_readHash _).map fun proofCommitment =>
    { header with proofCommitment }

theorem decodes_readMsgHeader {msgHeader : MsgHeader}
    (allowed : ∀ certificate ∈ msgHeader.certificate,
      certificate.proofData.length ≤ maxZKProofSize) :
    ∃ bytes, prlEncodeHeader msgHeader = .ok bytes ∧
      readMsgHeader.Decodes capacity bytes msgHeader := by
  obtain ⟨certificate, encoded, decodes⟩ := @decodes_readMsgCertificate capacity _ allowed
  refine ⟨certificate ++ writeBlockHeader msgHeader.blockHeader, ?_, ?_⟩
  · rw [prlEncodeHeader, encoded]
    rfl
  · apply decodes.bind
    have header := @decodes_readBlockHeaderBuf capacity msgHeader.blockHeader
    exact header.map (MsgHeader.mk msgHeader.certificate)

def AuxPowData.beforeBranch (auxPow : AuxPowData) : Bytes :=
  auxPow.pearlHeader.bytes ++ auxPow.modelOSStateHash.bytes ++
    leBytes 4 auxPow.pearlHeight.toUInt32.toNat ++ auxPow.pearlPublicData.bytes ++
    leBytes 4 auxPow.pearlProofData.length ++ auxPow.pearlProofData ++
    leBytes 4 auxPow.pearlCoinbaseTx.length ++ auxPow.pearlCoinbaseTx ++
    leBytes 1 auxPow.coinbaseBranch.length

def AuxPowMerkleNode.serialise (node : AuxPowMerkleNode) : Bytes :=
  node.hash.bytes ++ [if node.isLeft then 1 else 0]

theorem serialise_eq (auxPow : AuxPowData) : auxPow.serialise = auxPow.beforeBranch ++
      auxPow.coinbaseBranch.flatMap AuxPowMerkleNode.serialise :=
  rfl

/-- The bytes of a node with whichever flag they carry. -/
def ReadsNode (front : Bytes) (node : AuxPowMerkleNode) : Prop :=
  ∃ flag : UInt8, front = node.hash.bytes ++ [flag] ∧ node.isLeft = decide (flag ≠ 0)

theorem readsNode_serialise (node : AuxPowMerkleNode) : ReadsNode node.serialise node := by
  refine ⟨if node.isLeft then 1 else 0, rfl, ?_⟩
  cases node.isLeft <;> rfl

theorem decodes_readAuxPowMerkleNode
    (reads : ReadsNode front node) : readAuxPowMerkleNode.Decodes capacity front node := by
  obtain ⟨flag, rfl, left⟩ := reads
  apply Decoder.Decodes.of_run
  intro slab rest
  rw [readAuxPowMerkleNode, Decoder.run_bind_done (run_readFull (by simp))]
  obtain ⟨hash, isLeft⟩ := node
  obtain rfl := left
  simp

theorem decodes_readPearlHeight (positive : 0 < height)
    (bounded : height ≤ maxPearlHeight) :
    readPearlHeight.Decodes capacity (leBytes 4 height.toUInt32.toNat) height := by
  rw [← List.append_nil (leBytes _ _)]
  apply (Decoder.Decodes.of_run (run_readUint32 _)).bind
  exact .ensure positive (.ensure bounded (.pure height))

theorem decodes_readCoinbaseBranch
    (depth : branch.length ≤ maxCoinbaseBranchDepth)
    (reads : List.Forall₂ ReadsNode fronts branch) : readCoinbaseBranch.Decodes capacity
      (leBytes 1 branch.length ++ fronts.flatten) branch := by
  have length : ((leBytes 1 branch.length).headD 0).toNat = branch.length := by
    simp only [leBytes, List.headD_cons]
    exact UInt8.toNat_ofNat_of_lt' (Nat.lt_of_le_of_lt depth (by decide))
  apply (decodes_readFull (length_leBytes 1 _)).bind
  simp only [length]
  exact .ensure depth (.repeatTimes (reads.imp fun _ _ node => decodes_readAuxPowMerkleNode node))

theorem AuxPowData.Readable.decodes_flags (readable : auxPow.Readable)
    (reads : List.Forall₂ ReadsNode fronts auxPow.coinbaseBranch) :
    deserialiseAuxPow.Decodes capacity (auxPow.beforeBranch ++ fronts.flatten) auxPow := by
  have proofLen := toNat_ofNat_proofLen readable.proofSize (by decide)
  have cbLen := toNat_ofNat_proofLen readable.coinbaseSize (by decide)
  have nonzero : UInt32.ofNat auxPow.pearlProofData.length ≠ 0 := by
    intro zero
    rw [zero] at proofLen
    exact readable.proofData (List.eq_nil_of_length_eq_zero proofLen.symm)
  have header : readPearlBits.Decodes capacity auxPow.pearlHeader.bytes auxPow.pearlHeader := by
    rw [← List.append_nil auxPow.pearlHeader.bytes]
    apply (decodes_readFixed _).bind
    exact .ensure readable.bits (.ensure readable.sign (.pure _))
  have proof : readPearlProofData.Decodes capacity
      (leBytes 4 auxPow.pearlProofData.length ++ auxPow.pearlProofData) auxPow.pearlProofData := by
    apply (decodes_readUint32 (Nat.lt_of_le_of_lt readable.proofSize (by decide))).bind
    apply Decoder.Decodes.ensure nonzero
    apply Decoder.Decodes.ensure (by rw [proofLen]; exact readable.proofSize)
    exact decodes_readFull proofLen.symm
  have coinbase : readPearlCoinbaseTx.Decodes capacity
      (leBytes 4 auxPow.pearlCoinbaseTx.length ++ auxPow.pearlCoinbaseTx)
      auxPow.pearlCoinbaseTx := by
    apply (decodes_readUint32 (Nat.lt_of_le_of_lt readable.coinbaseSize (by decide))).bind
    apply Decoder.Decodes.ensure (by rw [cbLen]; exact readable.coinbaseSize)
    exact decodes_readFull cbLen.symm
  rw [AuxPowData.beforeBranch]
  simp only [List.append_assoc]
  apply header.bind
  apply (decodes_readHash _).bind
  apply (decodes_readPearlHeight readable.positive readable.height).bind
  apply (decodes_readFixed _).bind
  rw [← List.append_assoc (leBytes 4 auxPow.pearlProofData.length)]
  apply proof.bind
  rw [← List.append_assoc (leBytes 4 auxPow.pearlCoinbaseTx.length)]
  apply coinbase.bind
  exact (decodes_readCoinbaseBranch readable.branch reads).map
    fun coinbaseBranch => { auxPow with coinbaseBranch }

theorem AuxPowData.Readable.decodes (readable : auxPow.Readable) :
    deserialiseAuxPow.Decodes capacity auxPow.serialise auxPow := by
  rw [serialise_eq, List.flatMap_def]
  apply readable.decodes_flags
  rw [List.forall₂_map_left_iff]
  exact List.forall₂_same.mpr fun node _ => readsNode_serialise node

theorem Framed.encodes {msgHeader : MsgHeader} {auxPow : Option AuxPowData}
    (framed : Framed msgHeader auxPow) (missing : WireError) (func : String) :
    ∃ header data, prlEncodeHeader msgHeader = .ok header ∧
      writeBlockAuxPow missing msgHeader.blockHeader auxPow = .ok data ∧
      readMsgHeader.Decodes capacity header msgHeader ∧
      (readBlockAuxPow func msgHeader.blockHeader).Decodes capacity data auxPow := by
  obtain ⟨header, encoded, decodes⟩ := @decodes_readMsgHeader capacity _ framed.certificate
  cases marked : isAuxPowBlock msgHeader.blockHeader with
  | false =>
    refine ⟨header, [], encoded, ?_, decodes, ?_⟩
    · rw [writeBlockAuxPow, if_neg (by simp [marked])]
      rfl
    · rw [readBlockAuxPow, if_neg (by simp [marked]), framed.unmarked marked]
      exact .pure none
  | true =>
    obtain ⟨data, rfl⟩ := framed.marked marked
    have readable := framed.readable data rfl
    refine ⟨header, data.serialise, encoded, ?_, decodes, ?_⟩
    · rw [writeBlockAuxPow, if_pos marked]
      rfl
    · rw [readBlockAuxPow, if_pos marked]
      exact (readable.decodes.mapError).map some

end Decodes

end ModelOS.Wire
