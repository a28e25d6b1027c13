import ModelOS.Wire.TxEncode

namespace ModelOS.Wire

open Data

/-! A serialised transaction is as long as its size says. -/

@[simp] theorem length_writeVarInt (value : UInt64) :
    (writeVarInt value).length = varIntSerializeSize value := by
  unfold writeVarInt varIntSerializeSize
  split
  · rfl
  · split
    · simp
    · split <;> simp

@[simp] theorem length_writeVarBytes (bytes : Bytes) : (writeVarBytes bytes).length =
      varIntSerializeSize (UInt64.ofNat bytes.length) + bytes.length := by
  simp [writeVarBytes]

theorem length_writeCounted {encode : α → Bytes} {size : α → Nat}
    (length : ∀ value, (encode value).length = size value) (values : List α) :
    (writeCounted encode values).length = varIntSerializeSize (UInt64.ofNat values.length) +
        (values.map size).sum := by
  obtain rfl : (fun value => (encode value).length) = size := funext length
  simp [writeCounted, List.length_flatMap]

theorem length_writeTxIn (txIn : TxIn) : (writeTxIn txIn).length = txIn.serializeSize := by
  simp only [writeTxIn, writeOutPoint, List.length_append,
    FixedBytes.length_bytes, length_leBytes, length_writeVarBytes, TxIn.serializeSize]
  omega

theorem length_writeTxOut (txOut : TxOut) : (writeTxOut txOut).length = txOut.serializeSize := by
  simp only [writeTxOut, List.length_append, length_leBytes,
    length_writeVarBytes, TxOut.serializeSize]
  omega

@[simp] theorem length_writeTxWitness (witness : TxWitness) :
    (writeTxWitness witness).length = witnessSerializeSize witness :=
  length_writeCounted length_writeVarBytes witness

theorem length_serialize (tx : MsgTx) : tx.serialize.length = tx.serializeSize := by
  unfold MsgTx.serialize prlEncodeTx MsgTx.serializeSize MsgTx.baseSize
  cases tx.hasWitness with
  | false =>
    simp [length_writeCounted length_writeTxIn, length_writeCounted length_writeTxOut]
    omega
  | true =>
    simp [length_writeCounted length_writeTxIn,
      length_writeCounted length_writeTxOut, List.length_flatMap]
    omega

theorem length_serializeNoWitness (tx : MsgTx) :
    tx.serializeNoWitness.length = tx.serializeSizeStripped := by
  unfold MsgTx.serializeNoWitness prlEncodeTx MsgTx.serializeSizeStripped MsgTx.baseSize
  simp [length_writeCounted length_writeTxIn,
    length_writeCounted length_writeTxOut, baseEncoding, witnessEncoding]
  omega

def MsgTx.scriptSize (tx : MsgTx) : Nat :=
  (tx.txIn.map fun txIn => txIn.signatureScript.length).sum +
    (tx.txOut.map fun txOut => txOut.pkScript.length).sum +
    (tx.txIn.map fun txIn => (txIn.witness.map List.length).sum).sum

structure MsgTx.Readable (tx : MsgTx) : Prop where
  inputs : tx.txIn ≠ []
  inputCount : tx.txIn.length ≤ maxTxInPerMessage
  outputCount : tx.txOut.length ≤ maxTxOutPerMessage
  signatureScripts : ∀ txIn ∈ tx.txIn, txIn.signatureScript.length ≤ maxWitnessItemSize
  pkScripts : ∀ txOut ∈ tx.txOut, txOut.pkScript.length ≤ maxWitnessItemSize
  witnesses : ∀ txIn ∈ tx.txIn, txIn.witness.length ≤ maxWitnessItemsPerInput ∧
      ∀ item ∈ txIn.witness, item.length ≤ maxWitnessItemSize

theorem witness_eq_nil_of_unflagged {tx : MsgTx} (unflagged : tx.hasWitness = false) :
    ∀ txIn ∈ tx.txIn, txIn.witness = [] := by
  intro txIn member
  have none := List.any_eq_false.mp unflagged txIn member
  simpa using none

section Read

variable {capacity slab : Nat} {rest : Bytes}

theorem toNat_ofNat_length {values : List α}
    (allowed : values.length ≤ limit) (small : limit < 2 ^ 64) :
    (UInt64.ofNat values.length).toNat = values.length :=
  UInt64.toNat_ofNat_of_lt' (Nat.lt_of_le_of_lt allowed small)

theorem run_readTxOut (allowed : txOut.pkScript.length ≤ maxWitnessItemSize)
    (granted : txOut.pkScript.length ≤ slab) :
    readTxOut.run capacity slab (writeTxOut txOut ++ rest) =
      .done txOut (slab - txOut.pkScript.length) rest := by
  rw [readTxOut, writeTxOut, List.append_assoc, Decoder.run_bind_done (run_readUint64 _),
    Decoder.run_bind_done (run_readScript allowed granted)]
  rfl

theorem run_readWitness (count : witness.length ≤ maxWitnessItemsPerInput)
    (allowed : ∀ item ∈ witness, item.length ≤ maxWitnessItemSize)
    (granted : (witness.map List.length).sum ≤ slab) :
    readWitness.run capacity slab (writeTxWitness witness ++ rest) =
      .done witness (slab - (witness.map List.length).sum) rest := by
  have length := toNat_ofNat_length count (by decide)
  rw [readWitness, writeTxWitness, writeCounted, List.append_assoc,
    Decoder.run_bind_done (run_readCount (by rw [length]; exact count)), length]
  exact Decoder.run_repeatTimes (fun item member {slab rest} granted =>
    run_readScript (allowed item member) granted) granted

theorem run_readWitnesses
    (witnesses : ∀ input ∈ txIn, input.witness.length ≤ maxWitnessItemsPerInput ∧
        ∀ item ∈ input.witness, item.length ≤ maxWitnessItemSize)
    (granted : (txIn.map fun input => (input.witness.map List.length).sum).sum ≤ slab) :
    (readWitnesses (txIn.map TxIn.stripped)).run capacity slab
        ((txIn.map TxIn.witness).flatMap writeTxWitness ++ rest) =
      .done txIn (slab - (txIn.map fun input =>
        (input.witness.map List.length).sum).sum) rest := by
  induction txIn generalizing slab with
  | nil => rfl
  | cons input inputs ih =>
    obtain ⟨head, tail⟩ := List.forall_mem_cons.mp witnesses
    simp only [List.map_cons, List.sum_cons, List.flatMap_cons, List.append_assoc] at granted ⊢
    rw [readWitnesses, Decoder.run_bind_done (run_readWitness head.1 head.2 (by omega)),
      Decoder.run_bind_done (ih tail (by omega)), Nat.sub_sub]
    rfl

theorem run_readStripped {txIn : List TxIn}
    (allowed : ∀ input ∈ txIn, input.signatureScript.length ≤ maxWitnessItemSize)
    (granted : (txIn.map fun input => input.signatureScript.length).sum ≤ slab) :
    (readTxIn.repeatTimes txIn.length).run capacity slab
        ((txIn.map TxIn.stripped).flatMap writeTxIn ++ rest) = .done (txIn.map TxIn.stripped)
        (slab - (txIn.map fun input => input.signatureScript.length).sum) rest := by
  have sizes : (txIn.map TxIn.stripped).map (fun input =>
      input.signatureScript.length) = txIn.map fun input => input.signatureScript.length := by
    rw [List.map_map]
    rfl
  have read := @Decoder.run_repeatTimes _ _ capacity slab readTxIn rest writeTxIn
    (fun input => input.signatureScript.length) (txIn.map TxIn.stripped) (by
      intro input member slab rest granted
      obtain ⟨original, listed, rfl⟩ := List.mem_map.mp member
      exact run_readTxIn rfl (allowed original listed) granted)
    (by rw [sizes]; exact granted)
  rwa [sizes, List.length_map] at read

theorem stripped_map_of_witness_eq_nil {txIn : List TxIn}
    (empty : ∀ input ∈ txIn, input.witness = []) : txIn.map TxIn.stripped = txIn := by
  have same : ∀ input ∈ txIn, input.stripped = id input := by
    intro input member
    rw [TxIn.stripped, ← empty input member, id]
  rw [List.map_congr_left same, List.map_id]

theorem run_readBody {tx : MsgTx} (readable : tx.Readable)
    (next : List TxIn → List TxOut → Decoder WireError α) (granted : tx.scriptSize ≤ slab) : (do
      let txIn ← readTxIn.repeatTimes tx.txIn.length
      let outputs ← readCount "MsgTx.PrlDecode"
        "too many output transactions to fit into max message size" maxTxOutPerMessage
      let txOut ← readTxOut.repeatTimes outputs
      next txIn txOut).run capacity slab ((tx.txIn.map TxIn.stripped).flatMap writeTxIn ++
          (writeCounted writeTxOut tx.txOut ++ rest)) =
      (next (tx.txIn.map TxIn.stripped) tx.txOut).run capacity
        (slab - (tx.txIn.map fun txIn => txIn.signatureScript.length).sum -
          (tx.txOut.map fun txOut => txOut.pkScript.length).sum) rest := by
  have count := toNat_ofNat_length readable.outputCount (by decide)
  rw [MsgTx.scriptSize] at granted
  rw [Decoder.run_bind_done (run_readStripped readable.signatureScripts (by omega)), writeCounted,
    List.append_assoc, Decoder.run_bind_done (run_readCount
      (by rw [count]; exact readable.outputCount)), count,
    Decoder.run_bind_done (Decoder.run_repeatTimes (fun txOut member {slab rest} granted =>
        run_readTxOut (readable.pkScripts txOut member) granted) (by omega))]

theorem serialize_eq_of_unflagged {tx : MsgTx} (unflagged : tx.hasWitness = false) :
    tx.serialize = tx.serializeNoWitness := by
  simp [MsgTx.serialize, MsgTx.serializeNoWitness, prlEncodeTx, unflagged]

theorem witnessHash_eq (sha256d : Bytes → Hash) (tx : MsgTx) :
    tx.witnessHash sha256d = sha256d tx.serialize := by
  rw [MsgTx.witnessHash]
  split
  · rfl
  · rename_i unflagged
    rw [serialize_eq_of_unflagged (Bool.eq_false_iff.mpr unflagged)]
    rfl

theorem run_prlDecodeTx_unflagged (readable : tx.Readable)
    (unflagged : tx.hasWitness = false) (granted : tx.scriptSize ≤ slab) :
    (prlDecodeTx witnessEncoding).run capacity slab (tx.serialize ++ rest) =
      .done tx (slab - tx.scriptSize) rest := by
  have count := toNat_ofNat_length readable.inputCount (by decide)
  have positive : UInt64.ofNat tx.txIn.length ≠ txFlagMarker := by
    intro zero
    rw [zero] at count
    exact readable.inputs (List.eq_nil_of_length_eq_zero count.symm)
  have noFlag : readTxFlag (UInt64.ofNat tx.txIn.length) witnessEncoding =
      pure (false, UInt64.ofNat tx.txIn.length) := if_neg (fun flagged => positive flagged.1)
  have bytes : tx.serializeNoWitness ++ rest = leBytes 4 tx.version.toUInt32.toNat ++
        (writeVarInt (UInt64.ofNat tx.txIn.length) ++
          ((tx.txIn.map TxIn.stripped).flatMap writeTxIn ++ (writeCounted writeTxOut tx.txOut ++
              (leBytes 4 tx.lockTime.toNat ++ rest)))) := by
    rw [serializeNoWitness_eq, writeCounted, List.length_map]
    simp only [List.append_assoc]
  rw [serialize_eq_of_unflagged unflagged, bytes, prlDecodeTx,
    Decoder.run_bind_done (run_readUint32 _),
    Decoder.run_bind_done (run_readVarInt_writeVarInt _ _ _ _), noFlag,
    Decoder.run_bind_done (Decoder.run_pure _ _ _ _)]
  simp only
  rw [Decoder.run_bind_done (Decoder.run_ensure (by rw [count]; exact readable.inputCount)), count,
    run_readBody readable _ granted, readFlaggedWitnesses, if_neg (by simp),
    Decoder.run_bind_done (Decoder.run_pure _ _ _ _), Decoder.run_bind_done (run_readUint32 _),
    stripped_map_of_witness_eq_nil (witness_eq_nil_of_unflagged unflagged), Nat.sub_sub]
  have noItems : (tx.txIn.map fun txIn => (txIn.witness.map List.length).sum).sum = 0 := by
    rw [List.sum_eq_zero_iff, List.forall_mem_map]
    intro txIn member
    rw [witness_eq_nil_of_unflagged unflagged txIn member]
    rfl
  rw [MsgTx.scriptSize, noItems]
  rfl

theorem run_prlDecodeTx_flagged (readable : tx.Readable)
    (flagged : tx.hasWitness = true) (granted : tx.scriptSize ≤ slab) :
    (prlDecodeTx witnessEncoding).run capacity slab (tx.serialize ++ rest) =
      .done tx (slab - tx.scriptSize) rest := by
  have count := toNat_ofNat_length readable.inputCount (by decide)
  have flag : ∀ {slab : Nat} {rest : Bytes},
      (readTxFlag 0 witnessEncoding).run capacity slab ([witnessFlag] ++
        (writeVarInt (UInt64.ofNat tx.txIn.length) ++ rest)) =
      .done (true, UInt64.ofNat tx.txIn.length) slab rest := by
    intro slab rest
    have read : (readFull 1).run capacity slab ([witnessFlag] ++
        (writeVarInt (UInt64.ofNat tx.txIn.length) ++ rest)) = .done [witnessFlag] slab
            (writeVarInt (UInt64.ofNat tx.txIn.length) ++ rest) := run_readFull rfl
    rw [readTxFlag, if_pos ⟨rfl, rfl⟩, Decoder.run_bind_done read,
      Decoder.run_bind_done (Decoder.run_ensure (by decide)),
      Decoder.run_bind_done (run_readVarInt_writeVarInt _ _ _ _)]
    rfl
  have bytes : tx.serialize ++ rest =
      leBytes 4 tx.version.toUInt32.toNat ++ (writeVarInt 0 ++ ([witnessFlag] ++
        (writeVarInt (UInt64.ofNat tx.txIn.length) ++
          ((tx.txIn.map TxIn.stripped).flatMap writeTxIn ++ (writeCounted writeTxOut tx.txOut ++
              ((tx.txIn.map TxIn.witness).flatMap writeTxWitness ++
                (leBytes 4 tx.lockTime.toNat ++ rest))))))) := by
    rw [serialize_eq flagged, writeCounted, List.length_map]
    simp only [List.append_assoc]
    rfl
  have present : ∃ input ∈ tx.txIn, input.witness.length ≠ 0 := by
    obtain ⟨input, member, nonempty⟩ := List.any_eq_true.mp flagged
    exact ⟨input, member, by simpa using nonempty⟩
  have split := granted
  rw [MsgTx.scriptSize] at split
  rw [bytes, prlDecodeTx, Decoder.run_bind_done (run_readUint32 _),
    Decoder.run_bind_done (run_readVarInt_writeVarInt _ _ _ _), Decoder.run_bind_done flag]
  simp only
  rw [Decoder.run_bind_done (Decoder.run_ensure (by rw [count]; exact readable.inputCount)), count,
    run_readBody readable _ granted, readFlaggedWitnesses, if_pos rfl]
  have witnesses : ∀ {slab : Nat} {rest : Bytes},
      (tx.txIn.map fun txIn => (txIn.witness.map List.length).sum).sum ≤ slab → (do
        let txIn ← readWitnesses (tx.txIn.map TxIn.stripped)
        Decoder.ensure (∃ input ∈ txIn, input.witness.length ≠ 0)
          (.plain "witness flag set but tx has no witnesses")
        return txIn : Decoder WireError (List TxIn)).run capacity slab
          ((tx.txIn.map TxIn.witness).flatMap writeTxWitness ++ rest) =
        .done tx.txIn (slab - (tx.txIn.map fun txIn =>
          (txIn.witness.map List.length).sum).sum) rest := by
    intro slab rest granted
    rw [Decoder.run_bind_done (run_readWitnesses readable.witnesses granted),
      Decoder.run_bind_done (Decoder.run_ensure present)]
    rfl
  rw [Decoder.run_bind_done (witnesses (by omega)),
    Decoder.run_bind_done (run_readUint32 _), Nat.sub_sub, Nat.sub_sub, ← Nat.add_assoc]
  rfl

theorem run_prlDecodeTx {tx : MsgTx} (readable : tx.Readable) (granted : tx.scriptSize ≤ slab) :
    (prlDecodeTx witnessEncoding).run capacity slab (tx.serialize ++ rest) =
      .done tx (slab - tx.scriptSize) rest := by
  cases flagged : tx.hasWitness with
  | false => exact run_prlDecodeTx_unflagged readable flagged granted
  | true => exact run_prlDecodeTx_flagged readable flagged granted

/-- A transaction within the limits is read back exactly if its scripts fit the slab together;
otherwise reading it panics. -/
theorem MsgTx.Readable.decodes_iff (readable : tx.Readable) :
    (readTx witnessEncoding).Decodes scriptSlabSize tx.serialize tx ↔
      tx.scriptSize ≤ scriptSlabSize := by
  constructor
  · intro decodes
    by_contra exceeds
    -- With a slab of just the size it needs the decoder takes all of it.
    have whole := @run_prlDecodeTx tx.scriptSize tx.scriptSize [] tx readable le_rfl
    have taken := Decoder.used_le_peak (Nat.zero_le _) whole
    obtain ⟨after, finished⟩ := decodes 0 []
    have panics := (Decoder.run_eq_panicked_iff (Nat.zero_le scriptSlabSize)
      (prlDecodeTx witnessEncoding) (tx.serialize ++ [])).mpr (by omega)
    cases panics.symm.trans finished
  · intro granted slab rest
    exact ⟨_, run_prlDecodeTx readable granted⟩

end Read

end ModelOS.Wire
