import ModelOS.Wire.Common

namespace ModelOS.Wire

open Data

/-! All scripts of a transaction are read into one slab, each into what the ones before
it have left over. -/

def scriptSlabSize : Nat := 2 ^ 22

def maxMessagePayload : Nat := 1024 * 1024 * 32

def minTxInPayload : Nat := 9 + 32

def maxTxInPerMessage : Nat := maxMessagePayload / minTxInPayload + 1

def minTxOutPayload : Nat := 9

def maxTxOutPerMessage : Nat := maxMessagePayload / minTxOutPayload + 1

def maxWitnessItemsPerInput : Nat := 4000000

def maxWitnessItemSize : Nat := 4000000

abbrev MessageEncoding := UInt32

def baseEncoding : MessageEncoding := 1

def witnessEncoding : MessageEncoding := 2

def txFlagMarker : UInt64 := 0x00

def witnessFlag : UInt8 := 0x01

def countError (what : String) (count max : Nat) : String :=
  what ++ " [count " ++ toString count ++ ", max " ++ toString max ++ "]"

def readCount (func what : String) (max : Nat) : Decoder WireError Nat := do
  let count ← readVarInt
  .ensure (count.toNat ≤ max) (.message func (countError what count.toNat max))
  return count.toNat

/-- The slice of the slab is taken before its bytes are read. -/
def readScript (fieldName : String) : Decoder WireError Bytes := do
  let count ← readCount "readScript"
    (fieldName ++ " is larger than the max allowed size") maxWitnessItemSize
  .claim count (readFull count)

def readUint32 : Decoder WireError UInt32 := do
  let buf ← readFull 4
  return UInt32.ofNat (leNat buf)

def readUint64 : Decoder WireError UInt64 := do
  let buf ← readFull 8
  return UInt64.ofNat (leNat buf)

def readHash : Decoder WireError Hash := do
  let buf ← readFull 32
  return .copy 32 buf

def readOutPoint : Decoder WireError OutPoint := do
  let hash ← readHash
  let index ← readUint32
  return { hash, index }

def readTxIn : Decoder WireError TxIn := do
  let previousOutPoint ← readOutPoint
  let signatureScript ← readScript "transaction input signature script"
  let sequence ← readUint32
  return { previousOutPoint, signatureScript, witness := [], sequence }

def readTxOut : Decoder WireError TxOut := do
  let value ← readUint64
  let pkScript ← readScript "transaction output public key script"
  return { value := value.toInt64, pkScript }

def readWitness : Decoder WireError TxWitness := do
  let witCount ← readCount "MsgTx.PrlDecode"
    "too many witness items to fit into max message size"
    maxWitnessItemsPerInput
  (readScript "script witness item").repeatTimes witCount

def readWitnesses : List TxIn → Decoder WireError (List TxIn)
  | [] => .done []
  | txIn :: rest => do
      let witness ← readWitness
      let rest ← readWitnesses rest
      return { txIn with witness } :: rest

/-- A count of zero is the marker of a flag byte in the witness encoding. -/
def readTxFlag (count : UInt64) (enc : MessageEncoding) : Decoder WireError (Bool × UInt64) :=
  if count = txFlagMarker ∧ enc = witnessEncoding then do
    let flag ← readFull 1
    .ensure (flag.headD 0 = witnessFlag) (.message "MsgTx.PrlDecode"
      ("witness tx but flag byte is " ++ hexByte (flag.headD 0)))
    let count ← readVarInt
    return (true, count)
  else return (false, count)

def readFlaggedWitnesses (flag : Bool) (txIn : List TxIn) : Decoder WireError (List TxIn) :=
  if flag then do
    let txIn ← readWitnesses txIn
    .ensure (∃ input ∈ txIn, input.witness.length ≠ 0)
      (.plain "witness flag set but tx has no witnesses")
    return txIn
  else return txIn

def prlDecodeTx (enc : MessageEncoding) : Decoder WireError MsgTx := do
  let version ← readUint32
  let marker ← readVarInt
  let (flag, count) ← readTxFlag marker enc
  .ensure (count.toNat ≤ maxTxInPerMessage) (.message "MsgTx.PrlDecode"
    (countError "too many input transactions to fit into max message size"
      count.toNat maxTxInPerMessage))
  let txIn ← readTxIn.repeatTimes count.toNat
  let outputs ← readCount "MsgTx.PrlDecode"
    "too many output transactions to fit into max message size"
    maxTxOutPerMessage
  let txOut ← readTxOut.repeatTimes outputs
  let txIn ← readFlaggedWitnesses flag txIn
  let lockTime ← readUint32
  return { version := version.toInt32, txIn, txOut, lockTime }

def readTx (enc : MessageEncoding) : Decoder WireError MsgTx :=
  .borrow (prlDecodeTx enc)

def writeTxIn (txIn : TxIn) : Bytes :=
  writeOutPoint txIn.previousOutPoint ++ writeVarBytes txIn.signatureScript ++
    leBytes 4 txIn.sequence.toNat

variable {capacity slab : Nat} {rest : Bytes}

theorem run_readUint32 (value : UInt32) :
    readUint32.run capacity slab (leBytes 4 value.toNat ++ rest) = .done value slab rest := by
  rw [readUint32, Decoder.run_bind_done (run_readFull (length_leBytes 4 _))]
  simp

theorem run_readUint64 (value : UInt64) :
    readUint64.run capacity slab (leBytes 8 value.toNat ++ rest) = .done value slab rest := by
  rw [readUint64, Decoder.run_bind_done (run_readFull (length_leBytes 8 _))]
  simp

theorem run_readHash (hash : Hash) :
    readHash.run capacity slab (hash.bytes ++ rest) = .done hash slab rest := by
  rw [readHash, Decoder.run_bind_done (run_readFull hash.length_bytes)]
  simp

theorem run_readOutPoint (outPoint : OutPoint) :
    readOutPoint.run capacity slab (writeOutPoint outPoint ++ rest) = .done outPoint slab rest := by
  rw [readOutPoint, writeOutPoint, List.append_assoc, Decoder.run_bind_done (run_readHash _),
    Decoder.run_bind_done (run_readUint32 _)]
  rfl

theorem run_readCount {func what : String} {max : Nat} {count : UInt64}
    (allowed : count.toNat ≤ max) :
    (readCount func what max).run capacity slab (writeVarInt count ++ rest) =
      .done count.toNat slab rest := by
  rw [readCount, Decoder.run_bind_done (run_readVarInt_writeVarInt _ _ _ _),
    Decoder.run_bind_done (Decoder.run_ensure allowed)]
  rfl

theorem run_readScript
    (allowed : script.length ≤ maxWitnessItemSize) (granted : script.length ≤ slab) :
    (readScript fieldName).run capacity slab (writeVarBytes script ++ rest) =
      .done script (slab - script.length) rest := by
  have length : (UInt64.ofNat script.length).toNat = script.length :=
    UInt64.toNat_ofNat_of_lt' (Nat.lt_of_le_of_lt allowed (by decide))
  rw [readScript, writeVarBytes, List.append_assoc,
    Decoder.run_bind_done (run_readCount (by rw [length]; exact allowed))]
  simp only [length, Decoder.run, if_pos granted]
  exact run_readFull rfl

/-- A script longer than what is left of the slab, whether or not its bytes
follow. -/
theorem run_readScript_panicked {fieldName : String} {count : UInt64}
    (allowed : count.toNat ≤ maxWitnessItemSize) (exceeded : slab < count.toNat) :
    (readScript fieldName).run capacity slab (writeVarInt count ++ rest) = .panicked := by
  rw [readScript, Decoder.run_bind_done (run_readCount allowed)]
  simp only [Decoder.run, if_neg (Nat.not_le.mpr exceeded)]

theorem run_readTxIn (noWitness : txIn.witness = [])
    (allowed : txIn.signatureScript.length ≤ maxWitnessItemSize)
    (granted : txIn.signatureScript.length ≤ slab) :
    readTxIn.run capacity slab (writeTxIn txIn ++ rest) =
      .done txIn (slab - txIn.signatureScript.length) rest := by
  rw [readTxIn, writeTxIn, List.append_assoc, List.append_assoc,
    Decoder.run_bind_done (run_readOutPoint _),
    Decoder.run_bind_done (run_readScript allowed granted),
    Decoder.run_bind_done (run_readUint32 _), Decoder.run_pure, ← noWitness]

def overfullTx (txIn : TxIn) (value count : UInt64) : Bytes :=
  leBytes 4 (1 : UInt32).toNat ++ (writeVarInt 1 ++ (writeTxIn txIn ++
    (writeVarInt 1 ++ (leBytes 8 value.toNat ++ writeVarInt count))))

theorem run_readTx_overfullTx
    (enc : MessageEncoding) (noWitness : txIn.witness = [])
    (scriptAllowed : txIn.signatureScript.length ≤ maxWitnessItemSize)
    (scriptGranted : txIn.signatureScript.length ≤ capacity)
    (countAllowed : count.toNat ≤ maxWitnessItemSize)
    (exceeded : capacity < txIn.signatureScript.length + count.toNat) :
    (readTx enc).run capacity slab (overfullTx txIn value count) = .panicked := by
  have inputs : ∀ rest, (readTxIn.repeatTimes 1).run capacity capacity (writeTxIn txIn ++ rest) =
        .done [txIn] (capacity - txIn.signatureScript.length) rest := by
    intro rest
    rw [Decoder.repeatTimes,
      Decoder.run_bind_done (run_readTxIn noWitness scriptAllowed scriptGranted)]
    rfl
  have output : (readTxOut.repeatTimes 1).run capacity (capacity - txIn.signatureScript.length)
      (leBytes 8 value.toNat ++ writeVarInt count) = .panicked := by
    have panics := @run_readScript_panicked capacity (capacity - txIn.signatureScript.length) []
      "transaction output public key script" count countAllowed (by omega)
    rw [List.append_nil] at panics
    rw [Decoder.repeatTimes]
    apply Decoder.run_bind_panicked
    rw [readTxOut, Decoder.run_bind_done (run_readUint64 _)]
    exact Decoder.run_bind_panicked panics
  have unflagged : readTxFlag 1 enc = pure (false, 1) :=
    if_neg (fun flagged => absurd flagged.1 (by decide))
  change (prlDecodeTx enc).run capacity capacity _ = _
  rw [prlDecodeTx, overfullTx, Decoder.run_bind_done (run_readUint32 _),
    Decoder.run_bind_done (run_readVarInt_writeVarInt _ _ _ _), unflagged,
    Decoder.run_bind_done (Decoder.run_pure _ _ _ _)]
  simp only
  rw [Decoder.run_bind_done (Decoder.run_ensure (by decide)),
    show UInt64.toNat 1 = 1 from rfl, Decoder.run_bind_done (inputs _),
    Decoder.run_bind_done (run_readCount (by decide))]
  exact Decoder.run_bind_panicked output

end ModelOS.Wire
