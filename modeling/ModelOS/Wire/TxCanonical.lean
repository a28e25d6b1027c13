import ModelOS.Wire.TxRoundTrip

namespace ModelOS.Wire

open Data

/-! What was read is the encoding of the value. -/

section Parse

theorem parses_readFull (size : Nat) : (readFull size).Parses fun front bytes =>
      front = bytes ∧ bytes.length = size :=
  .readFull

theorem parses_readUint32 : readUint32.Parses fun front value => front = leBytes 4 value.toNat := by
  refine (parses_readFull 4).bind fun front bytes read => .pure ?_
  obtain ⟨rfl, length⟩ := read
  rw [List.append_nil, leBytes_toNat_uint32 length]

theorem parses_readUint64 : readUint64.Parses fun front value => front = leBytes 8 value.toNat := by
  refine (parses_readFull 8).bind fun front bytes read => .pure ?_
  obtain ⟨rfl, length⟩ := read
  rw [List.append_nil, leBytes_toNat_uint64 length]

theorem parses_readHash : readHash.Parses fun front hash => front = hash.bytes := by
  refine (parses_readFull 32).bind fun front bytes read => .pure ?_
  obtain ⟨rfl, length⟩ := read
  rw [List.append_nil, FixedBytes.bytes_copy front length]

theorem parses_readWideVarInt (discriminant : UInt8) (narrow : width ≤ 8)
    (writes : ∀ value : UInt64, minimum ≤ value.toNat → value.toNat < 256 ^ width →
      writeVarInt value = discriminant :: leBytes width value.toNat) :
    (readWideVarInt width code minimum).Parses fun front value =>
      discriminant :: front = writeVarInt value := by
  refine (parses_readFull width).bind fun front bytes read => .ensure
    fun large => .pure ?_
  obtain ⟨rfl, length⟩ := read
  have small : leNat front < 256 ^ width := by
    rw [← length]
    exact leNat_lt front
  have bound : leNat front < 2 ^ 64 :=
    Nat.lt_of_lt_of_le small ((Nat.pow_le_pow_right (by decide) narrow).trans (by decide))
  have value := UInt64.toNat_ofNat_of_lt' bound
  rw [List.append_nil, writes _ (by rw [value]; exact large)
    (by rw [value]; exact small), value, ← length, leBytes_leNat]

theorem parses_readVarIntAfter (discriminant : UInt8) :
    (readVarIntAfter discriminant).Parses fun front value =>
      discriminant :: front = writeVarInt value := by
  have narrow : ∀ value : UInt64, ¬ value < 0xfd ↔ 0xfd ≤ value.toNat := by
    intro value
    rw [UInt64.lt_iff_toNat_lt, Nat.not_lt]
    rfl
  have pair : ∀ value : UInt64, value ≤ 0xffff ↔ value.toNat ≤ 0xffff :=
    fun value => UInt64.le_iff_toNat_le
  have quad : ∀ value : UInt64, value ≤ 0xffffffff ↔ value.toNat ≤ 0xffffffff :=
    fun value => UInt64.le_iff_toNat_le
  rw [readVarIntAfter]
  by_cases eight : discriminant = 0xff
  · rw [if_pos eight]
    subst eight
    apply parses_readWideVarInt 0xff (by decide)
    intro value large small
    rw [writeVarInt, if_neg ((narrow value).mpr (by omega)),
      if_neg (by rw [pair]; omega), if_neg (by rw [quad]; omega)]
  · rw [if_neg eight]
    by_cases four : discriminant = 0xfe
    · rw [if_pos four]
      subst four
      apply parses_readWideVarInt 0xfe (by decide)
      intro value large small
      rw [writeVarInt, if_neg ((narrow value).mpr (by omega)),
        if_neg (by rw [pair]; omega), if_pos (by rw [quad]; omega)]
    · rw [if_neg four]
      by_cases two : discriminant = 0xfd
      · rw [if_pos two]
        subst two
        apply parses_readWideVarInt 0xfd (by decide)
        intro value large small
        rw [writeVarInt, if_neg ((narrow value).mpr (by omega)), if_pos (by rw [pair]; omega)]
      · rw [if_neg two]
        refine .pure ?_
        have bound : discriminant.toNat < 0xfd := by
          have limit := discriminant.toNat_lt
          have other : ∀ code : UInt8, discriminant ≠ code →
              discriminant.toNat ≠ code.toNat :=
            fun code different same => different (UInt8.toNat_inj.mp same)
          have first := other 0xff eight
          have second := other 0xfe four
          have third := other 0xfd two
          simp only [UInt8.reduceToNat] at first second third
          omega
        rw [writeVarInt, if_pos (UInt64.lt_iff_toNat_lt.mpr (by simpa using bound))]
        simp

theorem parses_readVarInt : readVarInt.Parses fun front value => front = writeVarInt value := by
  refine (parses_readFull 1).bind fun front bytes read => ?_
  obtain ⟨rfl, length⟩ := read
  obtain ⟨discriminant, rfl⟩ := List.length_eq_one_iff.mp length
  exact parses_readVarIntAfter discriminant

theorem parses_readCount {max : Nat} :
    (readCount func what max).Parses fun front count =>
      front = writeVarInt (UInt64.ofNat count) ∧ count ≤ max := by
  refine parses_readVarInt.bind fun front count read => .ensure
    fun allowed => .pure ⟨?_, allowed⟩
  rw [List.append_nil, read, UInt64.ofNat_toNat]

theorem parses_readScript : (readScript fieldName).Parses fun front script =>
      front = writeVarBytes script := by
  refine parses_readCount.bind fun front count counted => .claim
    ((parses_readFull count).imp fun back script read => ?_)
  obtain ⟨rfl, length⟩ := read
  rw [counted.1, writeVarBytes, length]

theorem parses_readOutPoint :
    readOutPoint.Parses fun front outPoint => front = writeOutPoint outPoint := by
  refine parses_readHash.bind fun front hash hashRead =>
    parses_readUint32.bind fun back index indexRead => .pure ?_
  rw [hashRead, indexRead, List.append_nil, writeOutPoint]

theorem parses_readTxIn :
    readTxIn.Parses fun front txIn => front = writeTxIn txIn ∧ txIn.witness = [] := by
  refine parses_readOutPoint.bind fun first previousOutPoint outPointRead =>
    parses_readScript.bind fun second signatureScript scriptRead =>
    parses_readUint32.bind fun third sequence sequenceRead => .pure ⟨?_, rfl⟩
  rw [outPointRead, scriptRead, sequenceRead, writeTxIn]
  simp only [List.append_nil, List.append_assoc]

theorem parses_readTxOut : readTxOut.Parses fun front txOut => front = writeTxOut txOut ∧ True := by
  refine parses_readUint64.bind fun first value valueRead =>
    parses_readScript.bind fun second pkScript scriptRead => .pure ⟨?_, trivial⟩
  rw [valueRead, scriptRead, writeTxOut, List.append_nil]
  rfl

theorem parses_readWitness :
    readWitness.Parses fun front witness => front = writeTxWitness witness := by
  refine parses_readCount.bind fun first count counted =>
    ((parses_readScript.imp fun _ _ read => ⟨read, trivial⟩).repeatTimes_encoded count).imp
      fun back witness read => ?_
  rw [counted.1, read.1, writeTxWitness, writeCounted, read.2.1]

theorem parses_readWitnesses (txIn : List TxIn) : (readWitnesses txIn).Parses fun front result =>
      front = (result.map TxIn.witness).flatMap writeTxWitness ∧
        result.map TxIn.stripped = txIn.map TxIn.stripped := by
  induction txIn with
  | nil => exact .pure ⟨rfl, rfl⟩
  | cons input inputs ih =>
    refine parses_readWitness.bind fun front witness head =>
      ih.bind fun back rest tail => .pure ?_
    obtain ⟨rfl, stripped⟩ := tail
    rw [head, List.append_nil]
    refine ⟨rfl, ?_⟩
    rw [List.map_cons, List.map_cons, stripped]
    rfl

theorem parses_readTxFlag (marker : UInt64) (enc : MessageEncoding) :
    (readTxFlag marker enc).Parses fun front flagged =>
      if flagged.1 then marker = 0 ∧ enc = witnessEncoding ∧
        front = [witnessFlag] ++ writeVarInt flagged.2
      else front = [] ∧ flagged.2 = marker ∧ (enc = witnessEncoding → marker ≠ 0) := by
  rw [readTxFlag]
  by_cases marked : marker = txFlagMarker ∧ enc = witnessEncoding
  · rw [if_pos marked]
    refine (parses_readFull 1).bind fun front bytes read => .ensure fun isFlag =>
      parses_readVarInt.bind fun back count counted => .pure ?_
    obtain ⟨rfl, length⟩ := read
    obtain ⟨flag, rfl⟩ := List.length_eq_one_iff.mp length
    rw [if_pos rfl, counted, List.append_nil, ← isFlag]
    exact ⟨marked.1, marked.2, rfl⟩
  · rw [if_neg marked]
    refine .pure ?_
    rw [if_neg (by simp)]
    exact ⟨rfl, rfl, fun witness zero => marked ⟨zero, witness⟩⟩

theorem parses_readFlaggedWitnesses (flag : Bool)
    (empty : ∀ input ∈ txIn, input.witness = []) :
    (readFlaggedWitnesses flag txIn).Parses fun front result => result.map TxIn.stripped = txIn ∧
      if flag then front = (result.map TxIn.witness).flatMap writeTxWitness ∧
        ∃ input ∈ result, input.witness.length ≠ 0
      else front = [] ∧ result = txIn := by
  have stripped := stripped_map_of_witness_eq_nil empty
  cases flag with
  | true =>
    rw [readFlaggedWitnesses, if_pos rfl]
    refine (parses_readWitnesses txIn).bind fun front result read => .ensure
      fun present => .pure ?_
    rw [read.2, stripped, if_pos rfl, List.append_nil, ← read.1]
    exact ⟨rfl, rfl, present⟩
  | false =>
    rw [readFlaggedWitnesses, if_neg (by simp)]
    refine .pure ?_
    rw [if_neg (by simp)]
    exact ⟨stripped, rfl, rfl⟩

theorem parses_prlDecodeTx (enc : MessageEncoding) : (prlDecodeTx enc).Parses fun front tx =>
      front = tx.serialize ∧ prlEncodeTx enc tx = tx.serialize ∧
        (enc = witnessEncoding → tx.txIn ≠ []) := by
  refine parses_readUint32.bind fun first version versionRead =>
    parses_readVarInt.bind fun second marker markerRead =>
    (parses_readTxFlag marker enc).bind fun third flagged flagRead => .ensure
    fun _ => (parses_readTxIn.repeatTimes_encoded _).bind fun fourth txIn inputsRead =>
    parses_readCount.bind fun fifth outputs outputsCounted =>
    (parses_readTxOut.repeatTimes_encoded outputs).bind fun sixth txOut outputsRead =>
    (parses_readFlaggedWitnesses flagged.1 inputsRead.2.2).bind
      fun seventh witnessed witnessesRead =>
    parses_readUint32.bind fun eighth lockTime lockTimeRead => .pure ?_
  obtain ⟨flag, count⟩ := flagged
  obtain ⟨rfl, inputCount, empty⟩ := inputsRead
  obtain ⟨rfl, outputCount, _⟩ := outputsRead
  obtain ⟨stripped, witnesses⟩ := witnessesRead
  have counted : writeVarInt (UInt64.ofNat witnessed.length) = writeVarInt count := by
    have length := congrArg List.length stripped
    rw [List.length_map, inputCount] at length
    rw [length, UInt64.ofNat_toNat]
  rw [versionRead, markerRead, outputsCounted.1, ← outputCount, lockTimeRead]
  cases flag with
  | true =>
    rw [if_pos rfl] at flagRead witnesses
    obtain ⟨rfl, rfl, rfl⟩ := flagRead
    obtain ⟨rfl, input, member, nonempty⟩ := witnesses
    have hasWitness : MsgTx.hasWitness ⟨version.toInt32, witnessed, txOut, lockTime⟩ = true :=
      List.any_eq_true.mpr ⟨input, member, by simpa using nonempty⟩
    refine ⟨?_, rfl, fun _ => List.ne_nil_of_mem member⟩
    rw [serialize_eq hasWitness, stripped, writeCounted, writeCounted,
      ← stripped, List.length_map, counted, stripped]
    simp only [List.append_assoc, List.append_nil]
    rfl
  | false =>
    rw [if_neg (by simp)] at flagRead witnesses
    obtain ⟨rfl, rfl, unmarked⟩ := flagRead
    obtain ⟨rfl, rfl⟩ := witnesses
    have noWitness : MsgTx.hasWitness ⟨version.toInt32, witnessed, txOut, lockTime⟩ = false := by
      apply List.any_eq_false.mpr
      intro input member
      simp [empty input member]
    refine ⟨?_, ?_, ?_⟩
    · rw [serialize_eq_of_unflagged noWitness, serializeNoWitness_eq, stripped,
        writeCounted, writeCounted, counted]
      simp only [List.append_assoc, List.append_nil, List.nil_append]
      rfl
    · simp [MsgTx.serialize, prlEncodeTx, noWitness]
    · intro witness none
      change witnessed = [] at none
      rw [none] at inputCount
      exact unmarked witness (UInt64.toNat_inj.mp inputCount.symm)

theorem parses_readTx (enc : MessageEncoding) : (readTx enc).Parses fun front tx =>
      front = tx.serialize ∧ prlEncodeTx enc tx = tx.serialize ∧
        (enc = witnessEncoding → tx.txIn ≠ []) :=
  (parses_prlDecodeTx enc).borrow

end Parse

/-- Accepted bytes are the encoding of what was read.  A transaction within the limits is read
back, whatever follows, exactly if its scripts fit the slab together.  Its base encoding, and
so its hash, says all but the witnesses. -/
theorem tx_encoding_canonical_iff (tx : MsgTx) :
    (∀ slab slab' payload,
      (readTx witnessEncoding).run scriptSlabSize slab payload = .done tx slab' [] →
        prlEncodeTx witnessEncoding tx = payload ∧ tx.serializeSize = payload.length) ∧
    (tx.Readable →
      ((readTx witnessEncoding).Decodes scriptSlabSize (prlEncodeTx witnessEncoding tx) tx ↔
        tx.scriptSize ≤ scriptSlabSize)) ∧
    (prlEncodeTx baseEncoding tx).length = tx.serializeSizeStripped ∧
    ∀ other : MsgTx, tx.Fits → other.Fits →
      (prlEncodeTx baseEncoding tx = prlEncodeTx baseEncoding other ↔
        tx.stripped = other.stripped) ∧
      ∀ sha256d : Bytes → Hash,
        Set.InjOn sha256d {prlEncodeTx baseEncoding tx, prlEncodeTx baseEncoding other} →
          (tx.txHash sha256d = other.txHash sha256d ↔ tx.stripped = other.stripped) := by
  refine ⟨?_, MsgTx.Readable.decodes_iff, length_serializeNoWitness tx, ?_⟩
  · intro slab slab' payload finished
    obtain ⟨front, split, isFront, _⟩ := parses_readTx witnessEncoding finished
    rw [List.append_nil] at split
    rw [split, isFront, length_serialize]
    exact ⟨rfl, rfl⟩
  · intro other fits otherFits
    have base : prlEncodeTx baseEncoding tx = prlEncodeTx baseEncoding other ↔
        tx.stripped = other.stripped :=
      ⟨stripped_eq_of_serializeNoWitness_eq fits otherFits, serializeNoWitness_eq_of_stripped_eq⟩
    refine ⟨base, fun sha256d collisionFree => ?_⟩
    rw [← base]
    exact collisionFree.eq_iff (.inl rfl) (.inr rfl)

namespace CanonicalExample

def spend (witness : TxWitness) : MsgTx :=
  ⟨1, [⟨⟨.fill 32 0x11, 0⟩, [], witness, 0xffffffff⟩], [⟨1000, [0x51]⟩], 0⟩

def txid : Hash :=
  .ofNat 32 0xd8721dea30fd7b487c2d360d286b86ae353f1399cc47015307e3f5409c6a2999

def overfull : MsgTx :=
  ⟨1, [⟨⟨.zero 32, 0⟩, List.replicate 194305 0, [], 0⟩], [⟨0, List.replicate 4000000 0⟩], 0⟩

end CanonicalExample

open CanonicalExample in
theorem tx_encoding_canonical_spend :
    (spend [[0x51]]).serializeSize = (spend [[0x51]]).serialize.length ∧
      (readTx witnessEncoding).Decodes scriptSlabSize (spend [[0x51]]).serialize (spend [[0x51]]) ∧
      ((spend [[0x51]]).txHash (fun _ => txid) = (spend []).txHash (fun _ => txid) ↔
        (spend [[0x51]]).stripped = (spend []).stripped) := by
  obtain ⟨accepted, within, _, base⟩ := tx_encoding_canonical_iff (spend [[0x51]])
  refine ⟨(accepted 0 (scriptSlabSize - 2) _ (by decide)).2, (within ?_).mpr (by decide),
    (base (spend []) ?_ ?_).2 _ ?_⟩
  · exact ⟨List.cons_ne_nil _ _, by decide, by decide, by decide, by decide, by decide⟩
  · exact MsgTx.fits_of_serializeSize (Nat.le_refl _) (by decide)
  · exact MsgTx.fits_of_serializeSize (Nat.le_refl _) (by decide)
  · rintro first (rfl | rfl) second (rfl | rfl) _
    all_goals rfl

open CanonicalExample in
/-- Two scripts, neither above the limit, that do not fit the slab together. -/
theorem overfull_not_read_back : overfull.Readable ∧
    ¬ (readTx witnessEncoding).Decodes scriptSlabSize overfull.serialize overfull := by
  have within : overfull.Readable := by
    refine ⟨List.cons_ne_nil _ _, by decide, by decide, ?_, ?_, ?_⟩
    · simp only [overfull, List.mem_singleton, forall_eq, List.length_replicate]
      decide
    · simp only [overfull, List.mem_singleton, forall_eq, List.length_replicate]
      decide
    · simp only [overfull, List.mem_singleton, forall_eq]
      decide
  refine ⟨within, ?_⟩
  rw [within.decodes_iff, MsgTx.scriptSize]
  simp only [overfull, List.map_cons, List.map_nil, List.sum_singleton, List.length_replicate]
  decide

end ModelOS.Wire
