import ModelOS.BlockChain.WitnessCommitment
import ModelOS.Wire.BlockCanonical

namespace ModelOS.BlockChain

open Data Wire

def checkCertificateSize (certificate : Option ZKCertificate) : Except RuleError Unit :=
  match certificate with
  | none => .ok ()
  | some certificate =>
    let certSize := 4 + certificate.serializedSize
    require (certSize ≤ Wire.certificateMaxSize) (ruleError .errCertificateTooLarge
      ("certificate too large: " ++ toString certSize ++ " bytes (max " ++
        toString Wire.certificateMaxSize ++ ")"))

def checkBlockSizes (block : MsgBlock) : Except RuleError Unit := do
  checkCertificateSize block.msgHeader.certificate
  let numTx := block.transactions.length
  require (numTx ≤ maxBlockVsize) (ruleError .errBlockTooBig
    ("block contains too many transactions - got " ++ toString numTx ++
      ", max " ++ toString maxBlockVsize))
  let blockVsize := getBlockVsize block
  require (blockVsize ≤ maxBlockVsize) (ruleError .errBlockTooBig
    ("block vsize is too big - got " ++ toString blockVsize ++ ", max " ++ toString maxBlockVsize))

theorem serializeSize_eq (block : MsgBlock) : block.serializeSize = serializeSizeStripped block +
      serializeWitnessSize block + certificateSerializeSize block.msgHeader.certificate +
      auxPowSerialiseSize block.auxPow := by
  have bodies : (block.transactions.map MsgTx.serializeSize).sum =
      (block.transactions.map MsgTx.serializeSizeStripped).sum + serializeWitnessSize block := by
    rw [serializeWitnessSize, ← List.sum_map_add]
    congr 1
    apply List.map_congr_left
    intro tx _
    have base : tx.serializeSizeStripped ≤ tx.serializeSize := Nat.le_add_right _ _
    omega
  rw [MsgBlock.serializeSize, MsgHeader.serializeSize, bodies, serializeSizeStripped]
  omega

/-- What a peer must not refuse: a message within its limit. -/
def Relayable (block : MsgBlock) : Prop :=
  ∃ bytes, block.serialize = .ok bytes ∧ bytes.length ≤ TxCommand.block.maxPayloadLength

theorem relayable_iff_serializeSize
    (framed : Framed block.msgHeader block.auxPow) :
    Relayable block ↔ block.serializeSize ≤ maxBlockPayload := by
  obtain ⟨bytes, encoded, length⟩ := length_serialize_block framed
  constructor
  · rintro ⟨other, same, fits⟩
    rw [encoded] at same
    obtain rfl := Except.ok.inj same
    rw [← length]
    exact fits
  · intro fits
    exact ⟨bytes, encoded, by rw [length]; exact fits⟩

theorem getBlockVsize_le_of_checkBlockSizes (sizes : checkBlockSizes block = .ok ()) :
    getBlockVsize block ≤ maxBlockVsize := by
  simp only [checkBlockSizes, bind_eq_ok, require_eq_ok] at sizes
  obtain ⟨_, _, _, _, vsize⟩ := sizes
  exact vsize

/-- What the virtual size counts beyond a quarter of the weight. -/
def vsizeSlack (block : MsgBlock) : Nat :=
  (witnessScaleFactor - serializeWitnessSize block % witnessScaleFactor) % witnessScaleFactor

theorem scaled_getBlockVsize (block : MsgBlock) :
    witnessScaleFactor * getBlockVsize block =
      witnessScaleFactor * serializeSizeStripped block + serializeWitnessSize block +
        vsizeSlack block := by
  rw [getBlockVsize, calcVsize, vsizeSlack, witnessScaleFactor]
  omega

/-- The limit of a message is the largest virtual size times the scale factor, as if there were
nothing but witnesses.  The certificate and the merged-mining data, which the virtual size does
not count, have to fit into what the other bytes leave for being counted in full, into the
virtual size that is left, and into what rounding gives away. -/
theorem relayable_iff_sections_fit {block : MsgBlock} (framed : Framed block.msgHeader block.auxPow)
    (sizes : checkBlockSizes block = .ok ()) : Relayable block ↔
      certificateSerializeSize block.msgHeader.certificate + auxPowSerialiseSize block.auxPow ≤
        (witnessScaleFactor - 1) * serializeSizeStripped block +
          witnessScaleFactor * (maxBlockVsize - getBlockVsize block) + vsizeSlack block := by
  have size := serializeSize_eq block
  have bounded := getBlockVsize_le_of_checkBlockSizes sizes
  have scaled := scaled_getBlockVsize block
  have limit : maxBlockPayload = witnessScaleFactor * maxBlockVsize := rfl
  rw [relayable_iff_serializeSize framed, size, limit, Nat.mul_sub]
  rw [witnessScaleFactor] at *
  omega

namespace WitnessBlock

@[irreducible] def item : Bytes :=
  List.replicate 3990000 0

@[irreducible] def proofData : Bytes :=
  List.replicate maxZKProofSize 0

theorem length_item : item.length = 3990000 := by
  unfold item
  exact List.length_replicate

theorem length_proofData : proofData.length = 60000 := by
  unfold proofData
  exact List.length_replicate

def tx : MsgTx where
  version := 1
  txIn := [{
    previousOutPoint := { hash := .zero 32, index := 0 }
    signatureScript := []
    witness := [item]
    sequence := 0 }]
  txOut := []
  lockTime := 0

def block (certificate : ZKCertificate) : MsgBlock where
  msgHeader := {
    certificate := some certificate
    blockHeader := {
      version := 1
      prevBlock := .zero 32
      merkleRoot := .zero 32
      timestamp := 0
      bits := 0
      proofCommitment := .zero 32 } }
  auxPow := none
  transactions := [tx]

def certificate (proofData : Bytes) : ZKCertificate where
  hash := .zero 32
  publicData := .zero publicDataSize
  proofData := proofData

theorem serializeSize_tx : tx.serializeSizeStripped = 51 ∧ tx.serializeSize = 3990059 := by
  have one : varIntSerializeSize (UInt64.ofNat 1) = 1 := by decide
  have long : varIntSerializeSize (UInt64.ofNat 3990000) = 5 := by decide
  have single : ∀ bytes : Bytes, witnessSerializeSize [bytes] =
      varIntSerializeSize (UInt64.ofNat 1) +
        (varIntSerializeSize (UInt64.ofNat bytes.length) + bytes.length) := by
    intro bytes
    simp [witnessSerializeSize]
  have items : witnessSerializeSize [item] = 3990006 := by
    rw [single, length_item, one, long]
  have flagged : tx.hasWitness = true := rfl
  have base : tx.baseSize = 51 := by decide
  refine ⟨base, ?_⟩
  rw [MsgTx.serializeSize, base, flagged, if_pos rfl]
  simp only [tx, List.map_cons, List.map_nil, List.sum_singleton, items]

theorem sizes_block (certificate : ZKCertificate) :
    serializeSizeStripped (block certificate) = 160 ∧
      serializeWitnessSize (block certificate) = 3990008 := by
  obtain ⟨stripped, size⟩ := serializeSize_tx
  constructor
  · rw [serializeSizeStripped]
    simp only [block, List.map_cons, List.map_nil, List.sum_singleton, stripped]
    decide
  · rw [serializeWitnessSize]
    simp only [block, List.map_cons, List.map_nil, List.sum_singleton, stripped, size]

theorem checkBlockSizes_block {proof : Bytes} (length : proof.length ≤ 60000) :
    checkBlockSizes (block (certificate proof)) = .ok () := by
  obtain ⟨stripped, witness⟩ := sizes_block (certificate proof)
  simp only [checkBlockSizes, bind_eq_ok, require_eq_ok]
  have one : (block (certificate proof)).transactions.length = 1 := rfl
  refine ⟨(), ?_, (), by rw [one]; decide, ?_⟩
  · simp only [checkCertificateSize, block, require_eq_ok]
    have size : (certificate proof).serializedSize = 200 + proof.length := rfl
    rw [size, Wire.certificateMaxSize]
    omega
  · rw [getBlockVsize, stripped, witness]
    decide

theorem serializeSize_block (proof : Bytes) :
    (block (certificate proof)).serializeSize = 3990372 + proof.length := by
  obtain ⟨stripped, witness⟩ := sizes_block (certificate proof)
  have size : certificateSerializeSize (some (certificate proof)) = 4 + (200 + proof.length) := rfl
  rw [serializeSize_eq, stripped, witness]
  simp only [block, size, auxPowSerialiseSize]
  omega

theorem framed_block {proof : Bytes} (length : proof.length ≤ maxZKProofSize) :
    Framed (block (certificate proof)).msgHeader (block (certificate proof)).auxPow := by
  refine ⟨?_, ?_, fun _ => rfl, by simp [block]⟩
  · intro present same
    obtain rfl := Option.some.inj same
    exact length
  · intro marked
    have version : ¬ ((1 : Int32) &&& auxPowMask = auxPowMask) := by decide
    exact absurd (of_decide_eq_true marked) version

end WitnessBlock

/-- A block that passes the size rules and that no peer reads. -/
theorem witness_block_not_relayable : ∃ block, Framed block.msgHeader block.auxPow ∧
      checkBlockSizes block = .ok () ∧ ¬ Relayable block := by
  have length : WitnessBlock.proofData.length ≤ maxZKProofSize :=
    Nat.le_of_eq WitnessBlock.length_proofData
  have framed := WitnessBlock.framed_block length
  refine ⟨_, framed, WitnessBlock.checkBlockSizes_block length, ?_⟩
  rw [relayable_iff_serializeSize framed, WitnessBlock.serializeSize_block,
    WitnessBlock.length_proofData]
  decide

theorem witness_block_relayable_without_proof :
    Relayable (WitnessBlock.block (WitnessBlock.certificate [])) := by
  have framed := @WitnessBlock.framed_block [] (Nat.zero_le _)
  have sizes := @WitnessBlock.checkBlockSizes_block [] (Nat.zero_le _)
  obtain ⟨stripped, witness⟩ := WitnessBlock.sizes_block (WitnessBlock.certificate [])
  apply (relayable_iff_sections_fit framed sizes).mpr
  rw [getBlockVsize, vsizeSlack, stripped, witness]
  decide

end ModelOS.BlockChain
