import ModelOS.Wire.AuxPow
import ModelOS.Wire.TxDecode

namespace ModelOS.Wire

open Data

/-! Messages that carry transactions. -/

def maxZKProofSize : Nat := 60000

def maxPearlHeight : Int32 := 1000000000

def maxBlockPayload : Nat := 4000000

def maxTxPerBlock : Nat := maxBlockPayload / 10 + 1

def maxCmpctShortIDs : Nat := maxTxPerBlock

def commandSize : Nat := 12

def readFixed (size : Nat) : Decoder WireError (FixedBytes size) := do
  let buf ← readFull size
  return .copy size buf

def readZKCertificate : Decoder WireError ZKCertificate := do
  let hash ← readHash
  let publicData ← readFixed publicDataSize
  let proofLen ← readUint32
  .ensure (proofLen.toNat ≤ maxZKProofSize) (.plain
    ("proof data too large: " ++ toString proofLen ++ " bytes (max 60000)"))
  let proofData ← readFull proofLen.toNat
  return { hash, publicData, proofData }

/-- Version zero stands for a missing certificate.  A certificate is smaller than
the limit that is put on its reader. -/
def readMsgCertificate : Decoder WireError (Option ZKCertificate) := do
  let version ← readUint32
  if version = 0 then return none
  else if version.toNat = certificateVersionZK then do
    let certificate ← readZKCertificate
    return some certificate
  else .fail (.plain ("unsupported certificate version: " ++ toString version))

structure MsgHeader where
  certificate : Option ZKCertificate
  blockHeader : BlockHeader
deriving DecidableEq

def readBlockHeaderBuf : Decoder WireError BlockHeader := do
  let version ← readUint32
  let prevBlock ← readHash
  let merkleRoot ← readHash
  let timestamp ← readUint32
  let bits ← readUint32
  let proofCommitment ← readHash
  return {
    version := version.toInt32
    prevBlock, merkleRoot, timestamp, bits, proofCommitment }

def readMsgHeader : Decoder WireError MsgHeader := do
  let certificate ← readMsgCertificate
  let blockHeader ← readBlockHeaderBuf
  return { certificate, blockHeader }

def readAuxPowMerkleNode : Decoder WireError AuxPowMerkleNode := do
  let nodeBuf ← readFull 33
  return { hash := .copy 32 (nodeBuf.take 32), isLeft := nodeBuf.getD 32 0 ≠ 0 }

def readPearlBits : Decoder WireError (FixedBytes pearlHeaderSize) := do
  let pearlHeader ← readFixed pearlHeaderSize
  let bits := readU32 pearlHeader.bytes 72
  .ensure (bits ≠ 0) (.plain "auxpow: PearlBits (from header) is zero")
  .ensure (bits &&& 0x00800000 = 0) (.plain
    "auxpow: PearlBits has sign bit set (negative compact target invalid)")
  return pearlHeader

def readPearlHeight : Decoder WireError Int32 := do
  let word ← readUint32
  let pearlHeight := word.toInt32
  .ensure (0 < pearlHeight) (.plain
    ("auxpow: PearlHeight " ++ toString pearlHeight ++ " must be positive"))
  .ensure (pearlHeight ≤ maxPearlHeight) (.plain
    ("auxpow: PearlHeight " ++ toString pearlHeight ++ " exceeds maximum"))
  return pearlHeight

def readPearlProofData : Decoder WireError Bytes := do
  let proofLen ← readUint32
  .ensure (proofLen ≠ 0) (.plain
    "auxpow: PearlProofData missing — parent proof-of-work unverifiable")
  .ensure (proofLen.toNat ≤ maxZKProofSize) (.plain
    ("auxpow: PearlProofData length " ++ toString proofLen ++ " exceeds max 60000"))
  readFull proofLen.toNat

def readPearlCoinbaseTx : Decoder WireError Bytes := do
  let cbLen ← readUint32
  .ensure (cbLen.toNat ≤ 1000000) (.plain
    ("auxpow: PearlCoinbaseTx length " ++ toString cbLen ++ " exceeds 1 MB"))
  readFull cbLen.toNat

def readCoinbaseBranch : Decoder WireError (List AuxPowMerkleNode) := do
  let branchLenBuf ← readFull 1
  let branchLen := (branchLenBuf.headD 0).toNat
  .ensure (branchLen ≤ maxCoinbaseBranchDepth) (.plain
    ("auxpow: CoinbaseBranch depth " ++ toString branchLen ++ " exceeds maximum 32"))
  readAuxPowMerkleNode.repeatTimes branchLen

def deserialiseAuxPow : Decoder WireError AuxPowData := do
  let pearlHeader ← readPearlBits
  let modelOSStateHash ← readHash
  let pearlHeight ← readPearlHeight
  let pearlPublicData ← readFixed publicDataSize
  let pearlProofData ← readPearlProofData
  let pearlCoinbaseTx ← readPearlCoinbaseTx
  let coinbaseBranch ← readCoinbaseBranch
  return {
    pearlHeader, modelOSStateHash, pearlHeight, pearlPublicData
    pearlProofData, pearlCoinbaseTx, coinbaseBranch }

/-- Blocks of merged mining carry the data right behind their header. -/
def readBlockAuxPow (func : String) (header : BlockHeader) :
    Decoder WireError (Option AuxPowData) :=
  if isAuxPowBlock header then do
    let auxPow ← deserialiseAuxPow.mapError fun error =>
      WireError.message func ("auxpow: " ++ error.error)
    return some auxPow
  else return none

structure MsgBlock where
  msgHeader : MsgHeader
  auxPow : Option AuxPowData
  transactions : List MsgTx
deriving DecidableEq

structure PrefilledTx where
  index : UInt32
  tx : MsgTx
deriving DecidableEq

structure MsgCmpctBlock where
  header : MsgHeader
  auxPow : Option AuxPowData
  nonce : UInt64
  shortIDs : List (FixedBytes 6)
  prefilled : List PrefilledTx
deriving DecidableEq

structure MsgBlockTxn where
  blockHash : Hash
  transactions : List MsgTx
deriving DecidableEq

def prlDecodeBlock (enc : MessageEncoding) : Decoder WireError MsgBlock := do
  let msgHeader ← readMsgHeader
  let auxPow ← readBlockAuxPow "MsgBlock.PrlDecode" msgHeader.blockHeader
  let txCount ← readCount "MsgBlock.PrlDecode"
    "too many transactions to fit into a block" maxTxPerBlock
  let transactions ← (readTx enc).repeatTimes txCount
  return { msgHeader, auxPow, transactions }

def readPrefilledTx (enc : MessageEncoding) : Decoder WireError PrefilledTx := do
  let idx ← readVarInt
  .ensure (idx.toNat ≤ maxCmpctShortIDs) (.message "MsgCmpctBlock.PrlDecode"
    ("prefilled index out of range [" ++ toString idx ++ "]"))
  let tx ← readTx enc
  return { index := idx.toUInt32, tx }

def prlDecodeCmpctBlock (enc : MessageEncoding) : Decoder WireError MsgCmpctBlock := do
  let header ← readMsgHeader
  let auxPow ← readBlockAuxPow "MsgCmpctBlock.PrlDecode" header.blockHeader
  let nonce ← readUint64
  let sidCount ← readCount "MsgCmpctBlock.PrlDecode" "too many short IDs"
    maxCmpctShortIDs
  let shortIDs ← (readFixed 6).repeatTimes sidCount
  let preCount ← readCount "MsgCmpctBlock.PrlDecode" "too many prefilled txns"
    maxCmpctShortIDs
  let prefilled ← (readPrefilledTx enc).repeatTimes preCount
  return { header, auxPow, nonce, shortIDs, prefilled }

def prlDecodeBlockTxn (enc : MessageEncoding) : Decoder WireError MsgBlockTxn := do
  let blockHash ← readHash
  let count ← readCount "MsgBlockTxn.PrlDecode" "too many transactions"
    maxCmpctShortIDs
  let transactions ← (readTx enc).repeatTimes count
  return { blockHash, transactions }

inductive TxCommand
  | tx
  | block
  | cmpctBlock
  | blockTxn
deriving DecidableEq

inductive Message
  | tx (msg : MsgTx)
  | block (msg : MsgBlock)
  | cmpctBlock (msg : MsgCmpctBlock)
  | blockTxn (msg : MsgBlockTxn)
deriving DecidableEq

def TxCommand.name : TxCommand → Bytes
  | tx => [0x74, 0x78]
  | block => [0x62, 0x6c, 0x6f, 0x63, 0x6b]
  | cmpctBlock => [0x63, 0x6d, 0x70, 0x63, 0x74, 0x62, 0x6c, 0x6f, 0x63, 0x6b]
  | blockTxn => [0x62, 0x6c, 0x6f, 0x63, 0x6b, 0x74, 0x78, 0x6e]

def TxCommand.maxPayloadLength : TxCommand → Nat
  | tx => maxBlockPayload
  | block => maxBlockPayload
  | cmpctBlock => maxMessagePayload
  | blockTxn => maxMessagePayload

def TxCommand.prlDecode (enc : MessageEncoding) : TxCommand → Decoder WireError Message
  | tx => do
      let msg ← readTx enc
      return .tx msg
  | block => do
      let msg ← prlDecodeBlock enc
      return .block msg
  | cmpctBlock => do
      let msg ← prlDecodeCmpctBlock enc
      return .cmpctBlock msg
  | blockTxn => do
      let msg ← prlDecodeBlockTxn enc
      return .blockTxn msg

inductive ReadResult (Other : Type)
  | message (msg : Message) (payload : Bytes)
  | other (msg : Other) (payload : Bytes)
  | error (error : WireError)
  | panicked
deriving DecidableEq

/-- The rest of the protocol: which other commands one-byte identifiers stand
for, and the result of reading the payload of such a command. -/
structure OtherMessages (Other : Type) where
  messageIDs : UInt8 → Bytes
  read : (command payload : Bytes) → ReadResult Other

section ReadV2

variable {Other : Type} (others : OtherMessages Other)

def v2MessageIDs (id : UInt8) : Bytes :=
  if id = 2 then TxCommand.block.name
  else if id = 21 then TxCommand.tx.name
  else others.messageIDs id

def trimRight (command : Bytes) : Bytes :=
  (command.reverse.dropWhile (· = 0)).reverse

/-- The command and the payload, or nothing for a plaintext that is too short. -/
def splitPlaintext : Bytes → Option (Bytes × Bytes)
  | [] => none
  | id :: rest =>
    if id = 0 then
      if rest.length < commandSize then none
      else some (trimRight (rest.take commandSize), rest.drop commandSize)
    else some (v2MessageIDs others id, rest)

def makeEmptyMessage (command : Bytes) : Option TxCommand :=
  [TxCommand.tx, .block, .cmpctBlock, .blockTxn].find? (·.name = command)

def readPayload (command : TxCommand) (enc : MessageEncoding)
    (payload : Bytes) : ReadResult Other :=
  if command.maxPayloadLength < payload.length then
    .error (.plain "payload exceeds max length")
  else
    match (command.prlDecode enc).run scriptSlabSize scriptSlabSize payload with
    | .done msg _ _ => .message msg payload
    | .failed error => .error error
    | .panicked => .panicked

def readV2MessageN (plaintext : Bytes) (enc : MessageEncoding) : ReadResult Other :=
  match splitPlaintext others plaintext with
  | none => .error (.plain "invalid plaintext length")
  | some (command, payload) =>
    match makeEmptyMessage command with
    | some command => readPayload command enc payload
    | none => others.read command payload

end ReadV2

/-- The largest total of script lengths that one transaction of the payload
declares, as far as the payload can be read: a last script counts in full even
if its bytes are missing. -/
def declaredScripts (command : TxCommand) (enc : MessageEncoding) (payload : Bytes) : Nat :=
  (command.prlDecode enc).peak 0 payload

/-- Reading a message with transactions gives a message or an error exactly when
no transaction declares more script bytes than the slab holds. -/
theorem readV2MessageN_ne_panicked_iff {Other : Type}
    {others : OtherMessages Other} {plaintext payload : Bytes}
    {command : TxCommand} (enc : MessageEncoding)
    (split : splitPlaintext others plaintext = some (command.name, payload))
    (fits : payload.length ≤ command.maxPayloadLength) :
    readV2MessageN others plaintext enc ≠ .panicked ↔
      declaredScripts command enc payload ≤ scriptSlabSize := by
  have made : makeEmptyMessage command.name = some command := by
    cases command <;> decide
  have runs := Decoder.run_eq_panicked_iff (Nat.zero_le scriptSlabSize)
    (command.prlDecode enc) payload
  rw [Nat.sub_zero] at runs
  unfold readV2MessageN
  simp only [split, made]
  rw [readPayload, if_neg (Nat.not_lt.mpr fits), declaredScripts, ← Nat.not_lt, ← runs]
  cases (command.prlDecode enc).run scriptSlabSize scriptSlabSize payload with
  | done msg slab rest => simp
  | failed error => simp
  | panicked => simp

namespace SlabExample

def noOthers : OtherMessages Unit where
  messageIDs := fun _ => []
  read := fun _ _ => .error (.plain "received unknown message")

def spendingInput (signatureScript : Bytes) : TxIn where
  previousOutPoint := { hash := .copy 32 [], index := 0 }
  signatureScript := signatureScript
  witness := []
  sequence := 0

theorem readV2MessageN_tx (payload : Bytes) (enc : MessageEncoding) :
    readV2MessageN noOthers (21 :: payload) enc = readPayload .tx enc payload :=
  rfl

def payment : Bytes :=
  leBytes 4 1 ++ (writeVarInt 1 ++ (writeTxIn (spendingInput []) ++
    (writeVarInt 1 ++ (leBytes 8 5000 ++ (writeVarBytes [0x51] ++ leBytes 4 0)))))

theorem payment_not_panicked : declaredScripts .tx witnessEncoding payment = 1 ∧
      readV2MessageN noOthers (21 :: payment) witnessEncoding ≠ .panicked := by
  have declared : declaredScripts .tx witnessEncoding payment = 1 := by
    decide
  have split : splitPlaintext noOthers (21 :: payment) = some (TxCommand.tx.name, payment) := rfl
  refine ⟨declared, ?_⟩
  rw [readV2MessageN_ne_panicked_iff witnessEncoding split (by decide), declared]
  decide

def overfull : Bytes :=
  overfullTx (spendingInput (List.replicate 194305 0)) 0 4000000

theorem length_overfull : overfull.length = 194369 := by
  simp only [overfull, overfullTx, writeTxIn, spendingInput, writeVarBytes,
    List.length_append, List.length_replicate, length_leBytes]
  rfl

theorem overfull_panics : overfull.length ≤ TxCommand.tx.maxPayloadLength ∧
      readV2MessageN noOthers (21 :: overfull) witnessEncoding = .panicked := by
  have short : overfull.length ≤ TxCommand.tx.maxPayloadLength := by
    rw [length_overfull]
    decide
  have length : (spendingInput (List.replicate 194305 0)).signatureScript.length =
      194305 := List.length_replicate
  have panics : (readTx witnessEncoding).run scriptSlabSize scriptSlabSize
      overfull = .panicked := by
    apply run_readTx_overfullTx witnessEncoding rfl
    · rw [length]
      decide
    · rw [length]
      decide
    · decide
    · rw [length]
      decide
  refine ⟨short, ?_⟩
  rw [readV2MessageN_tx, readPayload, if_neg (Nat.not_lt.mpr short), TxCommand.prlDecode,
    Decoder.run_bind_panicked panics]

end SlabExample

end ModelOS.Wire
