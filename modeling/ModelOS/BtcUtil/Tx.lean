import ModelOS.Wire.BlockLayout

namespace ModelOS.BtcUtil

open Data Wire

/-! A transaction with what was computed of it before, and with its bytes in a
block when the block had them. -/

structure Tx where
  msgTx : MsgTx
  txHash : Option Hash
  txHashWitness : Option Hash
  txHasWitness : Option Bool
  txIndex : Int
  rawBytes : Option Bytes
deriving DecidableEq

def txIndexUnknown : Int := -1

def newTx (msgTx : MsgTx) : Tx where
  msgTx := msgTx
  txHash := none
  txHashWitness := none
  txHasWitness := none
  txIndex := txIndexUnknown
  rawBytes := none

namespace Tx

def setIndex (index : Int) (tx : Tx) : Tx :=
  { tx with txIndex := index }

def setBytes (bytes : Bytes) (tx : Tx) : Tx :=
  { tx with rawBytes := some bytes }

def hasWitness (tx : Tx) : Bool × Tx :=
  match tx.txHasWitness with
  | some hasWitness => (hasWitness, tx)
  | none =>
    let hasWitness := tx.msgTx.hasWitness
    (hasWitness, { tx with txHasWitness := some hasWitness })

/-- The version, the inputs and outputs behind the two bytes of the witness
marker, and the lock time. -/
def stripWitness (baseSize : Nat) (rawBytes : Bytes) : Bytes :=
  rawBytes.take 4 ++ slice rawBytes 6 (baseSize - 8) ++ rawBytes.drop (rawBytes.length - 4)

variable (sha256d : Bytes → Hash)

def hash (tx : Tx) : Hash × Tx :=
  match tx.txHash with
  | some hash => (hash, tx)
  | none =>
    match tx.rawBytes with
    | none =>
      let hash := tx.msgTx.txHash sha256d
      (hash, { tx with txHash := some hash })
    | some rawBytes =>
      let (hasWitness, tx) := tx.hasWitness
      let hash :=
        if hasWitness then
          sha256d (stripWitness tx.msgTx.serializeSizeStripped rawBytes)
        else sha256d rawBytes
      (hash, { tx with txHash := some hash })

def witnessHash (tx : Tx) : Hash × Tx :=
  match tx.txHashWitness with
  | some hash => (hash, tx)
  | none =>
    let rawBytes := tx.rawBytes.getD []
    let hash :=
      if 0 < rawBytes.length then sha256d rawBytes
      else tx.msgTx.witnessHash sha256d
    (hash, { tx with txHashWitness := some hash })

structure Right (msgTx : MsgTx) (tx : Tx) : Prop where
  hash : (tx.hash sha256d).1 = msgTx.txHash sha256d
  witnessHash : (tx.witnessHash sha256d).1 = msgTx.witnessHash sha256d

variable {sha256d}

theorem hash_hash (tx : Tx) : ((tx.hash sha256d).2.hash sha256d).1 = (tx.hash sha256d).1 := by
  obtain ⟨msgTx, cached, cachedWitness, known, index, raw⟩ := tx
  cases cached <;> cases raw <;> rfl

theorem witnessHash_hash (tx : Tx) :
    ((tx.hash sha256d).2.witnessHash sha256d).1 = (tx.witnessHash sha256d).1 := by
  obtain ⟨msgTx, cached, cachedWitness, known, index, raw⟩ := tx
  cases cached <;> cases raw <;> cases known <;> cases cachedWitness <;> rfl

theorem Right.hashed {msgTx : MsgTx} {tx : Tx} (right : tx.Right sha256d msgTx) :
    (tx.hash sha256d).2.Right sha256d msgTx :=
  ⟨(hash_hash tx).trans right.hash, (witnessHash_hash tx).trans right.witnessHash⟩

theorem right_newTx (msgTx : MsgTx) (index : Int) :
    ((newTx msgTx).setIndex index).Right sha256d msgTx :=
  ⟨rfl, rfl⟩

theorem stripWitness_append (versionLength : version.length = 4)
    (flagsLength : flags.length = 2) (lockTimeLength : lockTime.length = 4)
    (base : baseSize = 8 + body.length) : stripWitness baseSize
        (version ++ (flags ++ (body ++ (witnesses ++ lockTime)))) =
      version ++ (body ++ lockTime) := by
  have first : (version ++ (flags ++ (body ++ (witnesses ++ lockTime)))).take 4 =
      version := List.take_left' versionLength
  have middle : slice (version ++ (flags ++ (body ++ (witnesses ++ lockTime)))) 6
      (baseSize - 8) = body := by
    rw [← List.append_assoc, slice_append _ _ 6 _ (by
      rw [List.length_append, versionLength, flagsLength])]
    exact List.take_left' (by omega)
  have last : (version ++ (flags ++ (body ++ (witnesses ++ lockTime)))).drop
      ((version ++ (flags ++ (body ++ (witnesses ++ lockTime)))).length - 4) = lockTime := by
    rw [← List.append_assoc, ← List.append_assoc, ← List.append_assoc]
    apply List.drop_left'
    rw [@List.length_append _ _ lockTime, lockTimeLength, Nat.add_sub_cancel]
  rw [stripWitness, first, middle, last, List.append_assoc]

/-- Cutting the witness out of a serialisation by its sizes leaves the
serialisation without witness. -/
theorem stripWitness_serialize {msgTx : MsgTx} (flagged : msgTx.hasWitness = true) :
    stripWitness msgTx.serializeSizeStripped msgTx.serialize = msgTx.serializeNoWitness := by
  have base := length_serializeNoWitness msgTx
  rw [serializeNoWitness_eq, ← List.append_assoc (writeCounted writeTxIn _)]
    at base ⊢
  rw [serialize_eq flagged, ← List.append_assoc (writeCounted writeTxIn _)]
  apply stripWitness_append (length_leBytes _ _) rfl (length_leBytes _ _)
  rw [← base]
  simp only [List.length_append, length_leBytes]
  omega

theorem right_setBytes_serialize (msgTx : MsgTx) (index : Int) :
    (((newTx msgTx).setIndex index).setBytes msgTx.serialize).Right sha256d msgTx := by
  constructor
  · change (if msgTx.hasWitness then
      sha256d (stripWitness msgTx.serializeSizeStripped msgTx.serialize)
      else sha256d msgTx.serialize) = sha256d msgTx.serializeNoWitness
    cases flagged : msgTx.hasWitness with
    | true => rw [if_pos rfl, stripWitness_serialize flagged]
    | false => rw [if_neg (by simp), serialize_eq_of_unflagged flagged]
  · change (if 0 < msgTx.serialize.length then sha256d msgTx.serialize
      else msgTx.witnessHash sha256d) = _
    rw [witnessHash_eq, ite_self]

theorem eq_serialize_of_right_setBytes {msgTx : MsgTx} (nonempty : 0 < bytes.length)
    (collisionFree : sha256d bytes = sha256d msgTx.serialize → bytes = msgTx.serialize)
    (right : (((newTx msgTx).setIndex index).setBytes bytes).Right sha256d msgTx) :
    bytes = msgTx.serialize := by
  apply collisionFree
  have witness := right.witnessHash
  change (if 0 < bytes.length then sha256d bytes
    else msgTx.witnessHash sha256d) = _ at witness
  rwa [if_pos nonempty, witnessHash_eq] at witness

end Tx

end ModelOS.BtcUtil
