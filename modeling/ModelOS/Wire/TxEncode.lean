import ModelOS.Wire.TxDecode

namespace ModelOS.Wire

open Data

section Encode

variable {α : Type}

/-- The number of values, and one after the other. -/
def writeCounted (encode : α → Bytes) (values : List α) : Bytes :=
  writeVarInt (UInt64.ofNat values.length) ++ values.flatMap encode

def writeTxWitness (witness : TxWitness) : Bytes :=
  writeCounted writeVarBytes witness

def MsgTx.hasWitness (tx : MsgTx) : Bool :=
  tx.txIn.any fun txIn => txIn.witness.length ≠ 0

def prlEncodeTx (enc : MessageEncoding) (tx : MsgTx) : Bytes :=
  let doWitness := enc = witnessEncoding ∧ tx.hasWitness
  leBytes 4 tx.version.toUInt32.toNat ++
    (if doWitness then [txFlagMarker.toUInt8, witnessFlag] else []) ++
    writeCounted writeTxIn tx.txIn ++ writeCounted writeTxOut tx.txOut ++
    (if doWitness then tx.txIn.flatMap fun txIn => writeTxWitness txIn.witness
      else []) ++
    leBytes 4 tx.lockTime.toNat

def MsgTx.serialize (tx : MsgTx) : Bytes :=
  prlEncodeTx witnessEncoding tx

def MsgTx.serializeNoWitness (tx : MsgTx) : Bytes :=
  prlEncodeTx baseEncoding tx

def MsgTx.txHash (sha256d : Bytes → Hash) (tx : MsgTx) : Hash :=
  sha256d tx.serializeNoWitness

def MsgTx.witnessHash (sha256d : Bytes → Hash) (tx : MsgTx) : Hash :=
  if tx.hasWitness then sha256d tx.serialize else tx.txHash sha256d

end Encode

def varIntSerializeSize (value : UInt64) : Nat :=
  if value < 0xfd then 1
  else if value ≤ 0xffff then 3
  else if value ≤ 0xffffffff then 5
  else 9

def TxIn.serializeSize (txIn : TxIn) : Nat :=
  40 + varIntSerializeSize (UInt64.ofNat txIn.signatureScript.length) + txIn.signatureScript.length

def TxOut.serializeSize (txOut : TxOut) : Nat :=
  8 + varIntSerializeSize (UInt64.ofNat txOut.pkScript.length) + txOut.pkScript.length

def witnessSerializeSize (witness : TxWitness) : Nat :=
  varIntSerializeSize (UInt64.ofNat witness.length) + (witness.map fun item =>
      varIntSerializeSize (UInt64.ofNat item.length) + item.length).sum

def MsgTx.baseSize (tx : MsgTx) : Nat :=
  8 + varIntSerializeSize (UInt64.ofNat tx.txIn.length) +
    varIntSerializeSize (UInt64.ofNat tx.txOut.length) +
    (tx.txIn.map TxIn.serializeSize).sum + (tx.txOut.map TxOut.serializeSize).sum

def MsgTx.serializeSize (tx : MsgTx) : Nat :=
  tx.baseSize + (if tx.hasWitness then
      2 + (tx.txIn.map fun txIn => witnessSerializeSize txIn.witness).sum
    else 0)

def MsgTx.serializeSizeStripped (tx : MsgTx) : Nat :=
  tx.baseSize

structure MsgTx.Fits (tx : MsgTx) : Prop where
  inputs : tx.txIn.length < 2 ^ 64
  outputs : tx.txOut.length < 2 ^ 64
  signatureScripts : ∀ txIn ∈ tx.txIn, FitsLength txIn.signatureScript
  pkScripts : ∀ txOut ∈ tx.txOut, FitsLength txOut.pkScript
  witnesses : ∀ txIn ∈ tx.txIn, txIn.witness.length < 2 ^ 64 ∧
    ∀ item ∈ txIn.witness, FitsLength item

theorem length_le_sum {α : Type} {values : List α} {size : α → Nat}
    (positive : ∀ value ∈ values, 1 ≤ size value) : values.length ≤ (values.map size).sum := by
  have counted := List.length_le_sum_of_one_le (values.map size) (List.forall_mem_map.mpr positive)
  rwa [List.length_map] at counted

theorem varIntSerializeSize_pos (value : UInt64) : 1 ≤ varIntSerializeSize value := by
  unfold varIntSerializeSize
  split
  · exact Nat.le.refl
  · split
    · decide
    · split <;> decide

theorem size_le_sum {α : Type} {values : List α} {size : α → Nat} {value : α}
    (member : value ∈ values) : size value ≤ (values.map size).sum :=
  List.single_le_sum (fun _ _ => Nat.zero_le _) _ (List.mem_map_of_mem member)

theorem witness_fits
    (size : witnessSerializeSize witness ≤ bound) (small : bound < 2 ^ 64) :
    witness.length < 2 ^ 64 ∧ ∀ item ∈ witness, FitsLength item := by
  rw [witnessSerializeSize] at size
  constructor
  · have count := @length_le_sum _ witness (fun item =>
      varIntSerializeSize (UInt64.ofNat item.length) + item.length)
      (fun item _ => Nat.le_add_right_of_le (varIntSerializeSize_pos _))
    omega
  · intro item member
    have counted := @size_le_sum _ witness (fun item =>
      varIntSerializeSize (UInt64.ofNat item.length) + item.length) item member
    rw [FitsLength]
    omega

variable {tx first second : MsgTx}

theorem MsgTx.fits_of_serializeSize (size : tx.serializeSize ≤ bound)
    (small : bound < 2 ^ 64) : tx.Fits := by
  have base : tx.baseSize ≤ bound := (Nat.le_add_right _ _).trans size
  rw [baseSize] at base
  have inputSize : ∀ txIn ∈ tx.txIn, txIn.serializeSize ≤ bound := by
    intro txIn member
    have part := @size_le_sum _ _ TxIn.serializeSize txIn member
    omega
  have outputSize : ∀ txOut ∈ tx.txOut, txOut.serializeSize ≤ bound := by
    intro txOut member
    have part := @size_le_sum _ _ TxOut.serializeSize txOut member
    omega
  refine ⟨?_, ?_, ?_, ?_, ?_⟩
  · have count := @length_le_sum _ tx.txIn TxIn.serializeSize (fun txIn _ => by
      rw [TxIn.serializeSize]
      omega)
    omega
  · have count := @length_le_sum _ tx.txOut TxOut.serializeSize (fun txOut _ => by
      rw [TxOut.serializeSize]
      omega)
    omega
  · intro txIn member
    have part := inputSize txIn member
    rw [TxIn.serializeSize] at part
    rw [FitsLength]
    omega
  · intro txOut member
    have part := outputSize txOut member
    rw [TxOut.serializeSize] at part
    rw [FitsLength]
    omega
  · intro txIn member
    cases flagged : tx.hasWitness with
    | false =>
      have empty : txIn.witness = [] := by
        have none := List.any_eq_false.mp flagged txIn member
        simpa using none
      rw [empty]
      exact ⟨by decide, by simp⟩
    | true =>
      rw [serializeSize, flagged, if_pos rfl] at size
      have part := @size_le_sum _ tx.txIn
        (fun txIn => witnessSerializeSize txIn.witness) txIn member
      exact witness_fits (by omega) small

def TxIn.stripped (txIn : TxIn) : TxIn :=
  { txIn with witness := [] }

def MsgTx.stripped (tx : MsgTx) : MsgTx :=
  { tx with txIn := tx.txIn.map TxIn.stripped }

theorem writeCounted_prefixFree {valid : α → Prop}
    {encode : α → Bytes} (prefixFree : PrefixFreeOn valid encode) : PrefixFreeOn
      (fun values : List α => values.length < 2 ^ 64 ∧ ∀ value ∈ values, valid value)
      (writeCounted encode) := by
  intro first second firstFits secondFits rest rest' equality
  rw [writeCounted, writeCounted, List.append_assoc, List.append_assoc] at equality
  obtain ⟨counts, remaining⟩ := writeVarInt_prefixFree trivial trivial equality
  have length : first.length = second.length := by
    have countsNat := congrArg UInt64.toNat counts
    rwa [UInt64.toNat_ofNat_of_lt' firstFits.1, UInt64.toNat_ofNat_of_lt' secondFits.1] at countsNat
  exact prefixFree.flatMap_of_length length firstFits.2 secondFits.2 remaining

theorem writeTxIn_prefixFree : PrefixFreeOn
      (fun txIn : TxIn => FitsLength txIn.signatureScript ∧ txIn.witness = []) writeTxIn := by
  intro first second firstValid secondValid rest rest' equality
  simp only [writeTxIn, List.append_assoc] at equality
  obtain ⟨outPoint, scripts⟩ := @writeOutPoint_prefixFree (fun _ => True) _ _
    trivial trivial _ _ equality
  obtain ⟨script, sequences⟩ := writeVarBytes_prefixFree firstValid.1 secondValid.1 scripts
  obtain ⟨sequence, remaining⟩ := @leBytes_uint32_prefixFree (fun _ => True) _ _
    trivial trivial _ _ sequences
  refine ⟨?_, remaining⟩
  have witness := firstValid.2.trans secondValid.2.symm
  cases first
  cases second
  congr

theorem writeTxWitness_prefixFree : PrefixFreeOn
      (fun witness : TxWitness => witness.length < 2 ^ 64 ∧ ∀ item ∈ witness, FitsLength item)
      writeTxWitness :=
  writeCounted_prefixFree writeVarBytes_prefixFree

theorem writeCounted_stripped (txIn : List TxIn) : writeCounted writeTxIn (txIn.map TxIn.stripped) =
      writeCounted writeTxIn txIn := by
  rw [writeCounted, writeCounted, List.length_map, List.flatMap_map]
  rfl

theorem serializeNoWitness_eq (tx : MsgTx) :
    tx.serializeNoWitness = leBytes 4 tx.version.toUInt32.toNat ++
      (writeCounted writeTxIn (tx.txIn.map TxIn.stripped) ++
        (writeCounted writeTxOut tx.txOut ++ leBytes 4 tx.lockTime.toNat)) := by
  rw [MsgTx.serializeNoWitness, prlEncodeTx, writeCounted_stripped]
  simp [baseEncoding, witnessEncoding]

theorem serialize_eq (flagged : tx.hasWitness = true) :
    tx.serialize = leBytes 4 tx.version.toUInt32.toNat ++
      ([txFlagMarker.toUInt8, witnessFlag] ++ (writeCounted writeTxIn (tx.txIn.map TxIn.stripped) ++
          (writeCounted writeTxOut tx.txOut ++ ((tx.txIn.map TxIn.witness).flatMap writeTxWitness ++
              leBytes 4 tx.lockTime.toNat)))) := by
  rw [MsgTx.serialize, prlEncodeTx, writeCounted_stripped, List.flatMap_map]
  simp [flagged]

theorem length_serializeNoWitness_lt (flagged : tx.hasWitness = true) :
    tx.serializeNoWitness.length < tx.serialize.length := by
  rw [serialize_eq flagged, serializeNoWitness_eq]
  simp only [List.length_append, List.length_cons]
  omega

theorem MsgTx.Fits.stripped_inputs (fits : tx.Fits) : (tx.txIn.map TxIn.stripped).length < 2 ^ 64 ∧
      ∀ txIn ∈ tx.txIn.map TxIn.stripped, FitsLength txIn.signatureScript ∧ txIn.witness = [] := by
  rw [List.length_map]
  refine ⟨fits.inputs, ?_⟩
  intro txIn member
  obtain ⟨original, listed, rfl⟩ := List.mem_map.mp member
  exact ⟨fits.signatureScripts original listed, rfl⟩

theorem stripped_eq_of_serializeNoWitness_eq (firstFits : first.Fits) (secondFits : second.Fits)
    (equality : first.serializeNoWitness = second.serializeNoWitness) :
    first.stripped = second.stripped := by
  rw [serializeNoWitness_eq, serializeNoWitness_eq] at equality
  obtain ⟨version, inputs⟩ := @leBytes_uint32_prefixFree (fun _ => True) _ _
    trivial trivial _ _ equality
  obtain ⟨txIn, outputs⟩ := writeCounted_prefixFree writeTxIn_prefixFree
    firstFits.stripped_inputs secondFits.stripped_inputs inputs
  obtain ⟨txOut, lockTimes⟩ := writeCounted_prefixFree writeTxOut_prefixFree
    ⟨firstFits.outputs, firstFits.pkScripts⟩ ⟨secondFits.outputs, secondFits.pkScripts⟩ outputs
  have lockTime := (@leBytes_uint32_prefixFree (fun _ => True)).injective trivial trivial lockTimes
  have versions : first.version = second.version := congrArg UInt32.toInt32 version
  rw [MsgTx.stripped, MsgTx.stripped, versions, txIn, txOut, lockTime]

theorem txIn_eq_of_stripped {first second : List TxIn}
    (stripped : first.map TxIn.stripped = second.map TxIn.stripped)
    (witnesses : first.map TxIn.witness = second.map TxIn.witness) : first = second := by
  induction first generalizing second with
  | nil => exact (List.map_eq_nil_iff.mp stripped.symm).symm
  | cons txIn rest ih =>
    match second, stripped, witnesses with
    | other :: others, stripped, witnesses =>
      obtain ⟨head, tail⟩ := List.cons.inj stripped
      obtain ⟨witness, tails⟩ := List.cons.inj witnesses
      rw [ih tail tails]
      congr 1
      cases txIn
      cases other
      cases head
      cases witness
      rfl

theorem eq_of_stripped_eq (stripped : first.stripped = second.stripped)
    (witnesses : first.txIn.map TxIn.witness = second.txIn.map TxIn.witness) : first = second := by
  obtain ⟨version, txIn, txOut, lockTime⟩ := MsgTx.mk.inj stripped
  cases first
  cases second
  congr
  exact txIn_eq_of_stripped txIn witnesses

theorem eq_of_serialize_eq (firstFits : first.Fits) (secondFits : second.Fits)
    (stripped : first.stripped = second.stripped) (firstFlagged : first.hasWitness = true)
    (secondFlagged : second.hasWitness = true) (equality : first.serialize = second.serialize) :
    first = second := by
  apply eq_of_stripped_eq stripped
  obtain ⟨version, txIn, txOut, lockTime⟩ := MsgTx.mk.inj stripped
  rw [serialize_eq firstFlagged, serialize_eq secondFlagged, version, txIn, txOut,
    lockTime] at equality
  have bodies := List.append_cancel_left (List.append_cancel_left
    (List.append_cancel_left (List.append_cancel_left equality)))
  have length := congrArg List.length txIn
  rw [List.length_map, List.length_map] at length
  refine (writeTxWitness_prefixFree.flatMap_of_length (by simp [length]) ?_ ?_ bodies).1
  · exact List.forall_mem_map.mpr firstFits.witnesses
  · exact List.forall_mem_map.mpr secondFits.witnesses

theorem serializeNoWitness_eq_of_stripped_eq (stripped : first.stripped = second.stripped) :
    first.serializeNoWitness = second.serializeNoWitness := by
  obtain ⟨version, txIn, txOut, lockTime⟩ := MsgTx.mk.inj stripped
  rw [serializeNoWitness_eq, serializeNoWitness_eq, version, txIn, txOut, lockTime]

def MsgTx.messages (tx : MsgTx) : List Bytes :=
  tx.serializeNoWitness :: if tx.hasWitness then [tx.serialize] else []

theorem serializeNoWitness_mem_messages (tx : MsgTx) : tx.serializeNoWitness ∈ tx.messages :=
  (.head _)

theorem serialize_mem_messages (flagged : tx.hasWitness = true) : tx.serialize ∈ tx.messages := by
  simp [MsgTx.messages, flagged]

/-- A message with witnesses is not the base message of a transaction that
differs in the witnesses only. -/
theorem serialize_ne_serializeNoWitness (stripped : first.stripped = second.stripped)
    (flagged : first.hasWitness = true) : first.serialize ≠ second.serializeNoWitness := by
  intro equality
  have longer := length_serializeNoWitness_lt flagged
  rw [equality, serializeNoWitness_eq_of_stripped_eq stripped] at longer
  exact Nat.lt_irrefl _ longer

theorem eq_of_stripped_eq_of_unflagged (stripped : first.stripped = second.stripped)
    (firstUnflagged : first.hasWitness = false) (secondUnflagged : second.hasWitness = false) :
    first = second := by
  have empty : ∀ {tx : MsgTx}, tx.hasWitness = false →
      tx.txIn.map TxIn.witness = List.replicate tx.stripped.txIn.length [] := by
    intro tx unflagged
    rw [MsgTx.stripped, List.length_map]
    apply List.eq_replicate_iff.mpr
    refine ⟨List.length_map _, ?_⟩
    intro witness member
    obtain ⟨txIn, listed, rfl⟩ := List.mem_map.mp member
    have none := List.any_eq_false.mp unflagged txIn listed
    simpa using none
  apply eq_of_stripped_eq stripped
  rw [empty firstUnflagged, empty secondUnflagged, stripped]

theorem eq_of_witnessHash_eq (firstFits : first.Fits)
    (secondFits : second.Fits) (stripped : first.stripped = second.stripped)
    (collisionFree : Set.InjOn sha256d
      {message | message ∈ first.messages ∨ message ∈ second.messages})
    (same : first.witnessHash sha256d = second.witnessHash sha256d) : first = second := by
  rw [MsgTx.witnessHash, MsgTx.witnessHash] at same
  cases firstFlagged : first.hasWitness with
  | true =>
    cases secondFlagged : second.hasWitness with
    | true =>
      rw [if_pos firstFlagged, if_pos secondFlagged] at same
      exact eq_of_serialize_eq firstFits secondFits stripped firstFlagged
        secondFlagged (collisionFree (.inl (serialize_mem_messages firstFlagged))
          (.inr (serialize_mem_messages secondFlagged)) same)
    | false =>
      rw [if_pos firstFlagged, if_neg (by simp [secondFlagged])] at same
      have message := collisionFree (.inl (serialize_mem_messages firstFlagged))
        (.inr (serializeNoWitness_mem_messages second)) same
      exact absurd message (serialize_ne_serializeNoWitness stripped firstFlagged)
  | false =>
    cases secondFlagged : second.hasWitness with
    | true =>
      rw [if_neg (by simp [firstFlagged]), if_pos secondFlagged] at same
      have message := collisionFree (.inl (serializeNoWitness_mem_messages first))
        (.inr (serialize_mem_messages secondFlagged)) same
      exact absurd message.symm (serialize_ne_serializeNoWitness stripped.symm secondFlagged)
    | false =>
      exact eq_of_stripped_eq_of_unflagged stripped firstFlagged secondFlagged

end ModelOS.Wire
