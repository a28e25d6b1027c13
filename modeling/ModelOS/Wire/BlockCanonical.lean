import ModelOS.Wire.BlockEncode
import ModelOS.Wire.TxCanonical

namespace ModelOS.Wire

open Data

/-! The bytes of an accepted block are those of its encoding, but for the flags
of the coinbase branch: any byte that is not zero stands for a left sibling. -/

section Parse

theorem parses_readFixed (size : Nat) :
    (readFixed size).Parses fun front value => front = value.bytes := by
  refine (parses_readFull size).bind fun front bytes read => .pure ?_
  obtain ⟨rfl, length⟩ := read
  rw [List.append_nil, FixedBytes.bytes_copy front length]

theorem length_serialize_certificate (certificate : ZKCertificate) :
    certificate.serialize.length = certificate.serializedSize := by
  simp only [ZKCertificate.serialize, ZKCertificate.serializedSize,
    List.length_append, FixedBytes.length_bytes, length_leBytes]

theorem parses_readZKCertificate : readZKCertificate.Parses fun front certificate =>
      front = certificate.serialize ∧ certificate.proofData.length ≤ maxZKProofSize := by
  refine parses_readHash.bind fun first hash hashRead =>
    (parses_readFixed publicDataSize).bind fun second publicData publicRead =>
    parses_readUint32.bind fun third proofLen lengthRead => .ensure
    fun allowed => (parses_readFull proofLen.toNat).bind
      fun fourth proofData read => .pure ?_
  obtain ⟨rfl, length⟩ := read
  rw [hashRead, publicRead, lengthRead, ← length]
  refine ⟨?_, by rw [length]; exact allowed⟩
  simp only [ZKCertificate.serialize, List.append_nil, List.append_assoc]

/-- The part of the certificate: it is encoded to the bytes it was read from. -/
structure ReadsCertificate (front : Bytes) (certificate : Option ZKCertificate) : Prop where
  encoded : prlEncodeCertificate certificate = .ok front
  length : front.length = certificateSerializeSize certificate
  allowed : ∀ present ∈ certificate, present.proofData.length ≤ maxZKProofSize

theorem parses_readMsgCertificate : readMsgCertificate.Parses ReadsCertificate := by
  refine parses_readUint32.bind fun front version versionRead => ?_
  by_cases null : version = 0
  · rw [if_pos null]
    refine .pure ⟨?_, ?_, by simp⟩
    · rw [versionRead, null]
      rfl
    · rw [versionRead]
      rfl
  · rw [if_neg null]
    by_cases zk : version.toNat = certificateVersionZK
    · rw [if_pos zk]
      refine parses_readZKCertificate.bind fun back certificate read => .pure ?_
      rw [versionRead, zk, read.1, List.append_nil]
      refine ⟨prlEncodeCertificate_of_allowed read.2, ?_, ?_⟩
      · rw [List.length_append, length_leBytes, length_serialize_certificate]
        rfl
      · intro present same
        obtain rfl := Option.some.inj same
        exact read.2
    · rw [if_neg zk]
      exact .fail

theorem parses_readBlockHeaderBuf : readBlockHeaderBuf.Parses fun front header =>
      front = writeBlockHeader header := by
  refine parses_readUint32.bind fun first version versionRead =>
    parses_readHash.bind fun second prevBlock prevRead =>
    parses_readHash.bind fun third merkleRoot rootRead =>
    parses_readUint32.bind fun fourth timestamp timeRead =>
    parses_readUint32.bind fun fifth bits bitsRead =>
    parses_readHash.bind fun sixth proofCommitment commitmentRead => .pure ?_
  rw [versionRead, prevRead, rootRead, timeRead, bitsRead, commitmentRead, writeBlockHeader]
  simp only [List.append_nil, List.append_assoc]
  rfl

structure ReadsHeader (front : Bytes) (msgHeader : MsgHeader) : Prop where
  encoded : prlEncodeHeader msgHeader = .ok front
  length : front.length = msgHeader.serializeSize
  allowed : ∀ certificate ∈ msgHeader.certificate, certificate.proofData.length ≤ maxZKProofSize

theorem parses_readMsgHeader : readMsgHeader.Parses ReadsHeader := by
  refine parses_readMsgCertificate.bind fun first certificate certificateRead =>
    parses_readBlockHeaderBuf.bind fun second blockHeader headerRead => .pure ?_
  rw [headerRead, List.append_nil]
  refine ⟨?_, ?_, certificateRead.allowed⟩
  · rw [prlEncodeHeader, certificateRead.encoded]
    rfl
  · rw [List.length_append, length_writeBlockHeader, certificateRead.length,
      MsgHeader.serializeSize, Nat.add_comm]

def branchStart (auxPow : AuxPowData) : Nat :=
  pearlHeaderSize + 32 + 4 + publicDataSize + 4 + auxPow.pearlProofData.length +
    4 + auxPow.pearlCoinbaseTx.length + 1

theorem length_beforeBranch (auxPow : AuxPowData) :
    auxPow.beforeBranch.length = branchStart auxPow := by
  simp only [AuxPowData.beforeBranch, branchStart, List.length_append,
    FixedBytes.length_bytes, length_leBytes]

theorem parses_readAuxPowMerkleNode : readAuxPowMerkleNode.Parses ReadsNode := by
  refine (parses_readFull 33).bind fun front bytes read => .pure ?_
  obtain ⟨rfl, length⟩ := read
  have hash : (front.take 32).length = 32 := by
    rw [List.length_take, length]
    rfl
  refine ⟨front.getD 32 0, ?_, rfl⟩
  rw [List.append_nil, FixedBytes.bytes_copy _ hash]
  have last : front.drop 32 = [front.getD 32 0] := by
    rw [List.drop_eq_getElem_cons (by omega), List.getD_eq_getElem _ _ (by omega),
      List.drop_eq_nil_of_le (by omega)]
  rw [← last, List.take_append_drop]

structure ReadsAuxPow (front : Bytes) (auxPow : AuxPowData) : Prop where
  nodes : ∃ fronts, front = auxPow.beforeBranch ++ fronts.flatten ∧
    List.Forall₂ ReadsNode fronts auxPow.coinbaseBranch
  readable : auxPow.Readable

theorem parses_readPearlBits : readPearlBits.Parses fun front header => front = header.bytes ∧
      readU32 header.bytes 72 ≠ 0 ∧ readU32 header.bytes 72 &&& 0x00800000 = 0 := by
  refine (parses_readFixed pearlHeaderSize).bind fun front header read => .ensure
    fun bits => .ensure fun sign => .pure ⟨?_, bits, sign⟩
  rw [List.append_nil, read]

theorem parses_readPearlHeight : readPearlHeight.Parses fun front height =>
      front = leBytes 4 height.toUInt32.toNat ∧ 0 < height ∧ height ≤ maxPearlHeight := by
  refine parses_readUint32.bind fun front word read => .ensure fun positive =>
    .ensure fun bounded => .pure ⟨?_, positive, bounded⟩
  rw [List.append_nil, read]
  rfl

theorem parses_readPearlProofData : readPearlProofData.Parses fun front data =>
      front = leBytes 4 data.length ++ data ∧ data ≠ [] ∧ data.length ≤ maxZKProofSize := by
  refine parses_readUint32.bind fun front proofLen lengthRead => .ensure
    fun nonzero => .ensure fun allowed => (parses_readFull _).imp
      fun back data read => ?_
  obtain ⟨rfl, length⟩ := read
  rw [length]
  refine ⟨by rw [lengthRead], ?_, allowed⟩
  intro empty
  rw [empty] at length
  exact nonzero (UInt32.toNat_inj.mp length.symm)

theorem parses_readPearlCoinbaseTx : readPearlCoinbaseTx.Parses fun front data =>
      front = leBytes 4 data.length ++ data ∧ data.length ≤ 1000000 := by
  refine parses_readUint32.bind fun front cbLen lengthRead => .ensure
    fun allowed => (parses_readFull _).imp fun back data read => ?_
  obtain ⟨rfl, length⟩ := read
  rw [length]
  exact ⟨by rw [lengthRead], allowed⟩

theorem parses_readCoinbaseBranch : readCoinbaseBranch.Parses fun front branch =>
      branch.length ≤ maxCoinbaseBranchDepth ∧ ∃ fronts,
        front = leBytes 1 branch.length ++ fronts.flatten ∧
          List.Forall₂ ReadsNode fronts branch := by
  refine (parses_readFull 1).bind fun front bytes read => .ensure fun depth =>
    (parses_readAuxPowMerkleNode.repeatTimes _).imp fun back branch nodes => ?_
  obtain ⟨rfl, length⟩ := read
  obtain ⟨byte, rfl⟩ := List.length_eq_one_iff.mp length
  obtain ⟨fronts, rfl, related, count⟩ := nodes
  rw [count]
  refine ⟨depth, fronts, ?_, related⟩
  simp [leBytes]

theorem parses_deserialiseAuxPow : deserialiseAuxPow.Parses ReadsAuxPow := by
  refine parses_readPearlBits.bind fun first pearlHeader headerRead =>
    parses_readHash.bind fun second modelOSStateHash hashRead =>
    parses_readPearlHeight.bind fun third pearlHeight heightRead =>
    (parses_readFixed publicDataSize).bind fun fourth pearlPublicData publicRead =>
    parses_readPearlProofData.bind fun fifth pearlProofData proofRead =>
    parses_readPearlCoinbaseTx.bind fun sixth pearlCoinbaseTx coinbaseRead =>
    parses_readCoinbaseBranch.bind fun seventh coinbaseBranch branchRead =>
      .pure ?_
  obtain ⟨depth, fronts, rfl, related⟩ := branchRead
  refine ⟨⟨fronts, ?_, related⟩, headerRead.2.1, headerRead.2.2, heightRead.2.1,
    heightRead.2.2, proofRead.2.1, proofRead.2.2, coinbaseRead.2, depth⟩
  rw [headerRead.1, hashRead, heightRead.1, publicRead, proofRead.1,
    coinbaseRead.1, AuxPowData.beforeBranch]
  simp only [List.append_nil, List.append_assoc]

/-- Marked headers are followed by merged-mining data, others by nothing. -/
def ReadsBlockAuxPow (header : BlockHeader) (front : Bytes) (auxPow : Option AuxPowData) : Prop :=
  if isAuxPowBlock header then ∃ data, auxPow = some data ∧ ReadsAuxPow front data
  else front = [] ∧ auxPow = none

theorem parses_readBlockAuxPow (func : String) (header : BlockHeader) :
    (readBlockAuxPow func header).Parses (ReadsBlockAuxPow header) := by
  unfold ReadsBlockAuxPow
  rw [readBlockAuxPow]
  by_cases marked : isAuxPowBlock header = true
  · rw [if_pos marked]
    refine parses_deserialiseAuxPow.mapError.bind fun front data read => .pure ?_
    rw [if_pos marked, List.append_nil]
    exact ⟨data, rfl, read⟩
  · rw [if_neg marked]
    refine .pure ?_
    rw [if_neg marked]
    exact ⟨rfl, rfl⟩

structure ReadsBlock (enc : MessageEncoding) (front : Bytes) (block : MsgBlock) : Prop where
  parts : ∃ header data,
    front = header ++ (data ++ writeCounted MsgTx.serialize block.transactions) ∧
      ReadsHeader header block.msgHeader ∧
      ReadsBlockAuxPow block.msgHeader.blockHeader data block.auxPow
  count : block.transactions.length ≤ maxTxPerBlock
  bodies : ∀ tx ∈ block.transactions, prlEncodeTx enc tx = tx.serialize ∧
    (enc = witnessEncoding → tx.txIn ≠ [])

theorem parses_prlDecodeBlock (enc : MessageEncoding) :
    (prlDecodeBlock enc).Parses (ReadsBlock enc) := by
  refine parses_readMsgHeader.bind fun header msgHeader headerRead =>
    (parses_readBlockAuxPow _ msgHeader.blockHeader).bind
      fun data auxPow auxPowRead =>
    parses_readCount.bind fun counted txCount countRead =>
    ((parses_readTx enc).repeatTimes_encoded txCount).bind
      fun bodies transactions bodiesRead => .pure ?_
  obtain ⟨rfl, length, each⟩ := bodiesRead
  refine ⟨⟨header, data, ?_, headerRead, auxPowRead⟩, ?_, each⟩
  · rw [countRead.1, writeCounted, length, List.append_nil]
  · rw [length]
    exact countRead.2

end Parse

def branchFlags (payload : Bytes) (block : MsgBlock) : List UInt8 :=
  match block.auxPow with
  | none => []
  | some auxPow =>
    (List.range auxPow.coinbaseBranch.length).map fun node =>
      payload.getD (block.msgHeader.serializeSize + branchStart auxPow + 33 * node + 32) 0

theorem map_getD_flatten (inside : offset < width)
    {fronts : List Bytes} (widths : ∀ front ∈ fronts, front.length = width) (before after : Bytes) :
    ((List.range fronts.length).map fun index =>
      (before ++ (fronts.flatten ++ after)).getD (before.length + width * index + offset) 0) =
      fronts.map (·.getD offset 0) := by
  induction fronts generalizing before with
  | nil => rfl
  | cons front fronts ih =>
    obtain ⟨head, tail⟩ := List.forall_mem_cons.mp widths
    have rest := ih tail (before ++ front)
    rw [List.length_cons, List.range_succ_eq_map, List.map_cons, List.map_map,
      List.map_cons, ← rest]
    congr 1
    · rw [List.getD_append_right _ _ _ _ (by omega), List.flatten_cons,
        List.append_assoc, List.getD_append _ _ _ _ (by omega)]
      congr 1
      omega
    · apply List.map_congr_left
      intro index _
      simp only [Function.comp_apply, List.flatten_cons, List.append_assoc, List.length_append]
      congr 1
      rw [Nat.mul_succ]
      omega

theorem ReadsNode.length
    (reads : ReadsNode front node) : front.length = 33 := by
  obtain ⟨flag, rfl, _⟩ := reads
  simp

theorem ReadsNode.eq_serialise_iff
    (reads : ReadsNode front node) : front = node.serialise ↔ front.getD 32 0 ≤ 1 := by
  obtain ⟨flag, rfl, left⟩ := reads
  have last : (node.hash.bytes ++ [flag]).getD 32 0 = flag := by
    rw [List.getD_append_right _ _ _ _ (by simp)]
    simp
  rw [last, AuxPowMerkleNode.serialise, left, List.append_cancel_left_eq,
    List.cons.injEq, and_iff_left rfl]
  by_cases zero : flag = 0
  · subst zero
    decide
  · rw [if_pos (by simpa using zero), UInt8.le_iff_toNat_le, ← UInt8.toNat_inj]
    have positive : flag.toNat ≠ 0 := fun same => zero (UInt8.toNat_inj.mp same)
    simp only [UInt8.reduceToNat]
    omega

theorem length_of_readsNode
    (reads : List.Forall₂ ReadsNode fronts nodes) : ∀ front ∈ fronts, front.length = 33 := by
  induction reads with
  | nil => exact List.forall_mem_nil _
  | cons head _ ih =>
    exact List.forall_mem_cons.mpr ⟨head.length, ih⟩

theorem flatten_eq_iff
    (reads : List.Forall₂ ReadsNode fronts nodes) :
    fronts.flatten = nodes.flatMap AuxPowMerkleNode.serialise ↔
      ∀ flag ∈ fronts.map (·.getD 32 0), flag ≤ 1 := by
  induction reads with
  | nil => simp
  | cons head _ ih =>
    rw [List.flatten_cons, List.flatMap_cons, List.map_cons,
      List.forall_mem_cons, ← ih, ← head.eq_serialise_iff]
    constructor
    · intro same
      apply List.append_inj same
      rw [head.length]
      simp [AuxPowMerkleNode.serialise]
    · rintro ⟨front, rest⟩
      rw [front, rest]

variable {enc : MessageEncoding}

/-- The parts of an accepted block, with the flags of the branch in it. -/
theorem ReadsBlock.reencodes_iff (reads : ReadsBlock enc payload block) :
    prlEncodeBlock enc block = .ok payload ↔ ∀ flag ∈ branchFlags payload block, flag ≤ 1 := by
  obtain ⟨header, data, rfl, headerRead, auxPowRead⟩ := reads.parts
  have bodies : writeCounted (prlEncodeTx enc) block.transactions =
      writeCounted MsgTx.serialize block.transactions := by
    rw [writeCounted, writeCounted, List.flatMap_congr fun tx member =>
      (reads.bodies tx member).1]
  unfold ReadsBlockAuxPow at auxPowRead
  unfold prlEncodeBlock writeBlockAuxPow
  rw [headerRead.encoded, bodies]
  cases marked : isAuxPowBlock block.msgHeader.blockHeader with
  | false =>
    rw [if_neg (by simp [marked])] at auxPowRead ⊢
    obtain ⟨rfl, none⟩ := auxPowRead
    change Except.ok (header ++ [] ++ _) = Except.ok _ ↔ _
    simp [branchFlags, none]
  | true =>
    rw [if_pos marked] at auxPowRead
    rw [if_pos rfl]
    obtain ⟨auxPow, some, ⟨fronts, rfl, nodes⟩, readable⟩ := auxPowRead
    have flags : branchFlags (header ++ (auxPow.beforeBranch ++ fronts.flatten ++
        writeCounted MsgTx.serialize block.transactions)) block = fronts.map (·.getD 32 0) := by
      rw [← map_getD_flatten (by decide : 32 < 33) (length_of_readsNode nodes)
        (header ++ auxPow.beforeBranch) (writeCounted MsgTx.serialize block.transactions)]
      simp only [branchFlags, some, nodes.length_eq, List.length_append,
        headerRead.length, length_beforeBranch, List.append_assoc]
    rw [flags, ← flatten_eq_iff nodes, some]
    change Except.ok (header ++ auxPow.serialise ++ _) = Except.ok _ ↔ _
    rw [Except.ok.injEq, serialise_eq]
    constructor
    · intro same
      simp only [List.append_assoc, List.append_cancel_left_eq, List.append_cancel_right_eq] at same
      exact same.symm
    · intro same
      simp only [List.append_assoc, same]

theorem ReadsBlockAuxPow.length (reads : ReadsBlockAuxPow header data auxPow) :
    data.length = auxPowSerialiseSize auxPow := by
  unfold ReadsBlockAuxPow at reads
  split at reads
  · obtain ⟨auxPow, rfl, ⟨fronts, rfl, nodes⟩, readable⟩ := reads
    have widths : fronts.map List.length = fronts.map fun _ => 33 :=
      List.map_congr_left (length_of_readsNode nodes)
    rw [List.length_append, length_beforeBranch, List.length_flatten,
      widths, List.map_const', List.sum_replicate_nat, nodes.length_eq]
    rfl
  · obtain ⟨rfl, rfl⟩ := reads
    rfl

theorem ReadsBlock.length (reads : ReadsBlock enc payload block) :
    payload.length = block.serializeSize := by
  obtain ⟨header, data, rfl, headerRead, auxPowRead⟩ := reads.parts
  rw [List.length_append, List.length_append, headerRead.length,
    auxPowRead.length, length_writeCounted length_serialize, MsgBlock.serializeSize]
  omega

theorem relation_of_decodes {decoder : Decoder WireError α} {value : α}
    {relation : Bytes → α → Prop}
    (decodes : decoder.Decodes capacity bytes value)
    (parses : decoder.Parses relation) : relation bytes value := by
  obtain ⟨slab, finished⟩ := decodes 0 []
  obtain ⟨front, split, holds⟩ := parses finished
  rw [List.append_nil, List.append_nil] at split
  rwa [split]

theorem length_serialize_block {block : MsgBlock} (framed : Framed block.msgHeader block.auxPow) :
    ∃ bytes, block.serialize = .ok bytes ∧ bytes.length = block.serializeSize := by
  obtain ⟨header, data, headerEncoded, dataEncoded, headerDecodes, dataDecodes⟩ :=
    @Framed.encodes 0 _ _ framed
      (.message "MsgBlock.PrlEncode" "auxpow: AuxPoW block missing AuxPowData") "MsgBlock.PrlDecode"
  have headerRead := relation_of_decodes headerDecodes parses_readMsgHeader
  have dataRead := relation_of_decodes dataDecodes (parses_readBlockAuxPow _ _)
  refine ⟨header ++ data ++ writeCounted MsgTx.serialize block.transactions, ?_, ?_⟩
  · rw [MsgBlock.serialize, prlEncodeBlock, headerEncoded, dataEncoded]
    rfl
  · rw [List.length_append, List.length_append, headerRead.length,
      dataRead.length, length_writeCounted length_serialize, MsgBlock.serializeSize]
    omega

/-- The reader of transactions takes this one back from its encoding. -/
def SelfDelimiting (enc : MessageEncoding) (tx : MsgTx) : Prop :=
  (readTx enc).Decodes scriptSlabSize (prlEncodeTx enc tx) tx

theorem decodes_readCount {capacity max count : Nat}
    (allowed : count ≤ max) (small : max < 2 ^ 64) :
    (readCount func what max).Decodes capacity (writeVarInt (UInt64.ofNat count)) count := by
  have same : (UInt64.ofNat count).toNat = count :=
    UInt64.toNat_ofNat_of_lt' (Nat.lt_of_le_of_lt allowed small)
  apply Decoder.Decodes.of_run
  intro slab rest
  have read := @run_readCount capacity slab rest func what max (UInt64.ofNat count)
    (by rw [same]; exact allowed)
  rwa [same] at read

theorem prlDecodeBlock_decodes {block : MsgBlock} (framed : Framed block.msgHeader block.auxPow)
    (count : block.transactions.length ≤ maxTxPerBlock)
    (bodies : ∀ tx ∈ block.transactions, SelfDelimiting enc tx) :
    ∃ bytes, prlEncodeBlock enc block = .ok bytes ∧
      (prlDecodeBlock enc).Decodes scriptSlabSize bytes block := by
  obtain ⟨header, data, headerEncoded, dataEncoded, headerDecodes, dataDecodes⟩ :=
    @Framed.encodes scriptSlabSize _ _ framed
      (.message "MsgBlock.PrlEncode" "auxpow: AuxPoW block missing AuxPowData") "MsgBlock.PrlDecode"
  refine ⟨header ++ (data ++ writeCounted (prlEncodeTx enc) block.transactions), ?_, ?_⟩
  · rw [prlEncodeBlock, headerEncoded, dataEncoded, ← List.append_assoc]
    rfl
  · apply headerDecodes.bind
    apply dataDecodes.bind
    apply (decodes_readCount count (by decide)).bind
    have transactions := @Decoder.Decodes.repeatTimes_encoded _ _ scriptSlabSize
      (readTx enc) (prlEncodeTx enc) block.transactions bodies
    exact transactions.map (MsgBlock.mk block.msgHeader block.auxPow)

/-- Blocks are read back from their encodings, and an accepted payload is the
encoding of its block exactly when its branch flags are zeros and ones. -/
theorem block_encoding_canonical_iff (enc : MessageEncoding) (block : MsgBlock) :
    (Framed block.msgHeader block.auxPow → block.transactions.length ≤ maxTxPerBlock →
      (∀ tx ∈ block.transactions, SelfDelimiting enc tx) →
        ∃ bytes, prlEncodeBlock enc block = .ok bytes ∧ bytes.length = block.serializeSize ∧
          (prlDecodeBlock enc).Decodes scriptSlabSize bytes block) ∧
    ∀ {payload : Bytes} {capacity slab slab' : Nat},
      (prlDecodeBlock enc).run capacity slab payload = .done block slab' [] →
        (prlEncodeBlock enc block = .ok payload ↔
          ∀ flag ∈ branchFlags payload block, flag ≤ 1) := by
  constructor
  · intro framed count bodies
    obtain ⟨bytes, encoded, decodes⟩ := prlDecodeBlock_decodes framed count bodies
    exact ⟨bytes, encoded,
      (relation_of_decodes decodes (parses_prlDecodeBlock enc)).length, decodes⟩
  · intro payload capacity slab slab' finished
    obtain ⟨front, split, reads⟩ := parses_prlDecodeBlock enc finished
    rw [List.append_nil] at split
    rw [split]
    exact reads.reencodes_iff

namespace MergedBlock

def header : BlockHeader where
  version := 0x1101
  prevBlock := .zero 32
  merkleRoot := .zero 32
  timestamp := 0
  bits := 0x1d00ffff
  proofCommitment := .zero 32

def auxPow : AuxPowData where
  pearlHeader := .copy pearlHeaderSize (List.replicate 72 0 ++ [0xff, 0xff, 0, 0x1d])
  modelOSStateHash := .zero 32
  pearlHeight := 1
  pearlPublicData := .zero publicDataSize
  pearlProofData := [0]
  pearlCoinbaseTx := []
  coinbaseBranch := [{ hash := .zero 32, isLeft := true }]

def block : MsgBlock where
  msgHeader := { certificate := none, blockHeader := header }
  auxPow := some auxPow
  transactions := []

def payload (flag : UInt8) : Bytes :=
  leBytes 4 0 ++ writeBlockHeader header ++ auxPow.beforeBranch ++
    (List.replicate 32 0 ++ [flag]) ++ [0]

theorem decodes_payload :
    (prlDecodeBlock witnessEncoding).run scriptSlabSize scriptSlabSize (payload 1) =
        .done block scriptSlabSize [] ∧
      (prlDecodeBlock witnessEncoding).run scriptSlabSize scriptSlabSize
        (payload 2) = .done block scriptSlabSize [] ∧
      prlEncodeBlock witnessEncoding block = .ok (payload 1) ∧ payload 1 ≠ payload 2 := by
  decide +kernel

end MergedBlock

theorem block_encoding_flag_two : ∃ payload other block, payload ≠ other ∧
      (prlDecodeBlock witnessEncoding).run scriptSlabSize scriptSlabSize payload =
        .done block scriptSlabSize [] ∧
      (prlDecodeBlock witnessEncoding).run scriptSlabSize scriptSlabSize other =
        .done block scriptSlabSize [] ∧ prlEncodeBlock witnessEncoding block ≠ .ok other := by
  obtain ⟨one, two, encoded, different⟩ := MergedBlock.decodes_payload
  refine ⟨_, _, _, different, one, two, ?_⟩
  rw [encoded]
  intro same
  exact different (Except.ok.inj same)

theorem block_encoding_canonical_one :
    (∃ bytes, prlEncodeBlock witnessEncoding MergedBlock.block = .ok bytes ∧
      bytes.length = MergedBlock.block.serializeSize ∧
      (prlDecodeBlock witnessEncoding).Decodes scriptSlabSize bytes MergedBlock.block) ∧
    prlEncodeBlock witnessEncoding MergedBlock.block = .ok (MergedBlock.payload 1) := by
  refine ⟨(block_encoding_canonical_iff _ _).1 ?_ ?_ ?_,
    ((block_encoding_canonical_iff _ _).2 MergedBlock.decodes_payload.1).mpr (by decide +kernel)⟩
  · refine ⟨?_, ?_, ?_, ?_⟩
    · simp [MergedBlock.block]
    · exact fun _ => ⟨_, rfl⟩
    · intro unmarked
      exact absurd unmarked (by decide)
    · intro data same
      obtain rfl := Option.some.inj same
      refine ⟨?_, ?_, ?_, ?_, ?_, ?_, ?_, ?_⟩ <;> decide
  · decide
  · simp [MergedBlock.block]

end ModelOS.Wire
