import ModelOS.Wire.BlockCanonical

namespace ModelOS.Wire

open Data

/-! Where the parts of an accepted block stand in its bytes. -/

variable {enc : MessageEncoding} {capacity slab slab' : Nat} {rest payload raw : Bytes}
  {msg : MsgBlock} {transactions : List MsgTx}

theorem decodes_of_run_readTx
    (finished : (readTx enc).run capacity slab input = .done tx slab' rest) :
    (readTx enc).Decodes capacity tx.serialize tx := by
  change (prlDecodeTx enc).run capacity capacity input = _ at finished
  obtain ⟨front, split, again⟩ := Decoder.run_local finished
  obtain ⟨front', split', read⟩ := parses_prlDecodeTx enc finished
  obtain rfl := List.append_cancel_right (split.symm.trans split')
  rw [← read.1]
  intro slab rest
  exact ⟨slab', again rest⟩

/-- The bytes of a block up to its transactions, the transactions, and what
follows. -/
structure Laid (enc : MessageEncoding) (raw : Bytes) (msg : MsgBlock) (rest : Bytes) : Prop where
  parts : ∃ header data,
    raw = header ++ (data ++ (writeCounted MsgTx.serialize msg.transactions ++ rest)) ∧
    header.length = msg.msgHeader.serializeSize ∧ data.length = auxPowSerialiseSize msg.auxPow ∧
    readMsgHeader.Decodes scriptSlabSize header msg.msgHeader ∧
    ∀ func, (readBlockAuxPow func msg.msgHeader.blockHeader).Decodes scriptSlabSize data msg.auxPow
  count : msg.transactions.length ≤ maxTxPerBlock
  bodies : ∀ tx ∈ msg.transactions, (readTx enc).Decodes scriptSlabSize tx.serialize tx

theorem Framed.of_reads (headerRead : ReadsHeader header msgHeader)
    (dataRead : ReadsBlockAuxPow msgHeader.blockHeader data auxPow) : Framed msgHeader auxPow := by
  unfold ReadsBlockAuxPow at dataRead
  refine ⟨headerRead.allowed, ?_, ?_, ?_⟩
  · intro marked
    rw [if_pos marked] at dataRead
    obtain ⟨read, rfl, _⟩ := dataRead
    exact ⟨read, rfl⟩
  · intro unmarked
    rw [if_neg (by simp [unmarked])] at dataRead
    exact dataRead.2
  · intro present some
    split at dataRead
    · obtain ⟨read, rfl, reads⟩ := dataRead
      obtain rfl := Option.some.inj some
      exact reads.readable
    · rw [dataRead.2] at some
      cases some

theorem ReadsBlockAuxPow.decodes
    (reads : ReadsBlockAuxPow header data auxPow) (func : String) :
    (readBlockAuxPow func header).Decodes capacity data auxPow := by
  unfold ReadsBlockAuxPow at reads
  rw [readBlockAuxPow]
  by_cases marked : isAuxPowBlock header = true
  · rw [if_pos marked] at reads ⊢
    obtain ⟨read, rfl, ⟨fronts, rfl, nodes⟩, readable⟩ := reads
    exact ((readable.decodes_flags nodes).mapError).map some
  · rw [if_neg marked] at reads ⊢
    rw [reads.1, reads.2]
    exact .pure none

theorem ReadsHeader.decodes
    (reads : ReadsHeader header msgHeader) : readMsgHeader.Decodes capacity header msgHeader := by
  obtain ⟨bytes, encoded, decodes⟩ := @decodes_readMsgHeader capacity _ reads.allowed
  obtain rfl := Except.ok.inj (encoded.symm.trans reads.encoded)
  exact decodes

theorem bodies_of_run
    (finished : (prlDecodeBlock enc).run capacity slab payload = .done msg slab' rest) :
    ∀ tx ∈ msg.transactions, (readTx enc).Decodes capacity tx.serialize tx := by
  obtain ⟨_, _, _, _, finished⟩ := Decoder.run_bind_eq_done finished
  obtain ⟨_, _, _, _, finished⟩ := Decoder.run_bind_eq_done finished
  obtain ⟨_, _, _, _, finished⟩ := Decoder.run_bind_eq_done finished
  obtain ⟨transactions, _, _, repeated, finished⟩ := Decoder.run_bind_eq_done finished
  injection finished with same
  rw [← same]
  intro tx member
  obtain ⟨_, _, _, _, read⟩ := Decoder.mem_of_run_repeatTimes repeated tx member
  exact decodes_of_run_readTx read

theorem laid_of_run
    (finished : (prlDecodeBlock enc).run scriptSlabSize slab payload = .done msg slab' rest) :
    Laid enc payload msg rest := by
  have bodies := bodies_of_run finished
  obtain ⟨front, rfl, reads⟩ := parses_prlDecodeBlock enc finished
  obtain ⟨header, data, rfl, headerRead, dataRead⟩ := reads.parts
  refine ⟨⟨header, data, ?_, headerRead.length, dataRead.length,
    headerRead.decodes, fun func => dataRead.decodes func⟩, reads.count, bodies⟩
  simp only [List.append_assoc]

theorem ReadsBlock.prlEncodeBlock_eq (reads : ReadsBlock enc front msg) :
    prlEncodeBlock enc msg = msg.serialize := by
  have bodies : writeCounted (prlEncodeTx enc) msg.transactions =
      writeCounted MsgTx.serialize msg.transactions := by
    rw [writeCounted, writeCounted, List.flatMap_congr fun tx member =>
      (reads.bodies tx member).1]
  rw [MsgBlock.serialize, prlEncodeBlock, prlEncodeBlock, bodies]
  rfl

theorem laid_serialize
    (finished : (prlDecodeBlock enc).run scriptSlabSize slab payload = .done msg slab' rest) :
    ∃ bytes, msg.serialize = .ok bytes ∧ Laid enc bytes msg [] := by
  have laid := laid_of_run finished
  obtain ⟨front, rfl, reads⟩ := parses_prlDecodeBlock enc finished
  obtain ⟨header, data, rfl, headerRead, dataRead⟩ := reads.parts
  obtain ⟨bytes, encoded, decodes⟩ := @prlDecodeBlock_decodes enc msg
    (.of_reads headerRead dataRead) reads.count (by
      intro tx member
      rw [SelfDelimiting, (reads.bodies tx member).1]
      exact laid.bodies tx member)
  refine ⟨bytes, reads.prlEncodeBlock_eq ▸ encoded, ?_⟩
  obtain ⟨slab, again⟩ := decodes 0 []
  rw [List.append_nil] at again
  exact laid_of_run again

theorem eq_serialize_iff
    (finished : (prlDecodeBlock enc).run scriptSlabSize slab payload = .done msg slab' rest) :
    msg.serialize = .ok payload ↔ rest = [] ∧ ∀ flag ∈ branchFlags payload msg, flag ≤ 1 := by
  obtain ⟨front, rfl, reads⟩ := parses_prlDecodeBlock enc finished
  have length := reads.length
  have encodings := reads.prlEncodeBlock_eq
  obtain ⟨header, data, _, headerRead, dataRead⟩ := reads.parts
  obtain ⟨bytes, encoded, size⟩ := length_serialize_block (Framed.of_reads headerRead dataRead)
  constructor
  · intro same
    have whole := Except.ok.inj (encoded.symm.trans same)
    rw [whole, List.length_append, length] at size
    have ended : rest = [] := List.eq_nil_of_length_eq_zero (by omega)
    rw [ended, List.append_nil] at same ⊢
    rw [← encodings] at same
    exact ⟨rfl, reads.reencodes_iff.mp same⟩
  · rintro ⟨ended, flags⟩
    rw [ended, List.append_nil] at flags ⊢
    rw [← encodings]
    exact reads.reencodes_iff.mpr flags

structure TxLoc where
  txStart : Nat
  txLen : Nat
deriving DecidableEq

/-- Positions are counted back from the end of the buffer. -/
def readTxLocs (fullLen : Nat) : (txCount slab : Nat) → Bytes → Outcome WireError (List TxLoc)
  | 0, slab, r => .done [] slab r
  | txCount + 1, slab, r =>
    match (readTx witnessEncoding).run scriptSlabSize slab r with
    | .failed error => .failed error
    | .panicked => .panicked
    | .done _ slab rest =>
      let txStart := fullLen - r.length
      let txLen := fullLen - rest.length - txStart
      match readTxLocs fullLen txCount slab rest with
      | .failed error => .failed error
      | .panicked => .panicked
      | .done txLocs slab rest => .done (⟨txStart, txLen⟩ :: txLocs) slab rest

def readTxCount : Decoder WireError Nat := do
  let msgHeader ← readMsgHeader
  let _ ← readBlockAuxPow "MsgBlock.DeserializeTxLoc" msgHeader.blockHeader
  readCount "MsgBlock.DeserializeTxLoc" "too many transactions to fit into a block" maxTxPerBlock

def deserializeTxLoc (r : Bytes) : Outcome WireError (List TxLoc) :=
  match readTxCount.run scriptSlabSize scriptSlabSize r with
  | .failed error => .failed error
  | .panicked => .panicked
  | .done txCount slab rest => readTxLocs r.length txCount slab rest

def locationsFrom (start : Nat) : List MsgTx → List TxLoc
  | [] => []
  | tx :: rest =>
    ⟨start, tx.serialize.length⟩ :: locationsFrom (start + tx.serialize.length) rest

/-- The serialisation of the transaction is that of some transaction to a reader
of the witness encoding. -/
def Locatable (tx : MsgTx) : Prop :=
  ∃ read, (readTx witnessEncoding).Decodes scriptSlabSize tx.serialize read

theorem readTxLocs_eq {fullLen start : Nat} (locatable : ∀ tx ∈ transactions, Locatable tx)
    (total : start + (transactions.flatMap MsgTx.serialize ++ rest).length = fullLen) :
    ∃ slab', readTxLocs fullLen transactions.length slab
      (transactions.flatMap MsgTx.serialize ++ rest) =
        .done (locationsFrom start transactions) slab' rest := by
  induction transactions generalizing start slab with
  | nil => exact ⟨slab, rfl⟩
  | cons tx others ih =>
    obtain ⟨⟨read, head⟩, tail⟩ := List.forall_mem_cons.mp locatable
    rw [List.flatMap_cons, List.append_assoc] at total ⊢
    obtain ⟨slab', finished⟩ := head slab (others.flatMap MsgTx.serialize ++ rest)
    rw [List.length_append] at total
    obtain ⟨after, located⟩ := @ih slab' (start + tx.serialize.length) tail (by omega)
    refine ⟨after, ?_⟩
    simp only [List.length_cons, readTxLocs, finished, located, locationsFrom, List.length_append]
    rw [List.length_append] at total
    congr 3 <;> omega

theorem locatable_of_readTxLocs
    (stands : raw.drop start = transactions.flatMap MsgTx.serialize ++ rest)
    (inside : start ≤ raw.length)
    (finished : readTxLocs raw.length transactions.length slab (raw.drop start) =
      .done txLocs slab' rest') (located : txLocs.map (fun loc => slice raw loc.txStart loc.txLen) =
      transactions.map MsgTx.serialize) : ∀ tx ∈ transactions, Locatable tx := by
  induction transactions generalizing start slab txLocs with
  | nil => rintro _ ⟨⟩
  | cons tx others ih =>
    rw [List.length_cons, readTxLocs] at finished
    cases read : (readTx witnessEncoding).run scriptSlabSize slab (raw.drop start) with
    | failed error =>
      rw [read] at finished
      cases finished
    | panicked =>
      rw [read] at finished
      cases finished
    | done value slab₁ after =>
      simp only [read] at finished
      cases next : readTxLocs raw.length others.length slab₁ after with
      | failed error =>
        rw [next] at finished
        cases finished
      | panicked =>
        rw [next] at finished
        cases finished
      | done txLocs' slab₂ rest₂ =>
        rw [next] at finished
        injection finished with same slabs rests
        rw [slabs, rests] at next
        rw [← same, List.map_cons, List.map_cons] at located
        injection located with head tail
        obtain ⟨front, split, _⟩ := Decoder.run_local read
        have length := congrArg List.length split
        rw [List.length_append, List.length_drop] at length
        -- the slice starts where the reader stood and ends where it stopped
        have here : raw.length - (raw.drop start).length = start := by
          rw [List.length_drop]
          omega
        have cut : raw.length - after.length - start = front.length := by
          omega
        rw [here, cut, slice, split, List.take_left] at head
        have behind : raw.drop (start + tx.serialize.length) = after := by
          rw [← List.drop_drop, split, ← head, List.drop_left]
        rw [← behind] at next
        have found : Locatable tx := by
          have decodes := decodes_of_run_readTx read
          obtain ⟨front', split', read'⟩ := parses_readTx witnessEncoding read
          obtain rfl := List.append_cancel_right (split.symm.trans split')
          exact ⟨value, by rwa [← head, read'.1]⟩
        rw [List.flatMap_cons, List.append_assoc] at stands
        rw [List.forall_mem_cons]
        refine ⟨found, ih ?_ ?_ next tail⟩
        · rw [← List.drop_drop, stands, List.drop_left]
        · rw [← head]
          omega

def firstTx (msg : MsgBlock) : Nat :=
  msg.msgHeader.serializeSize + varIntSerializeSize (UInt64.ofNat msg.transactions.length) +
    auxPowSerialiseSize msg.auxPow

section

variable (laid : Laid enc raw msg rest)
include laid

theorem Laid.split : ∃ before, raw = before ++
        (msg.transactions.flatMap MsgTx.serialize ++ rest) ∧ before.length = firstTx msg := by
  obtain ⟨header, data, rfl, headerLength, dataLength, _⟩ := laid.parts
  refine ⟨header ++ (data ++ writeVarInt (UInt64.ofNat msg.transactions.length)), ?_, ?_⟩
  · rw [writeCounted]
    simp only [List.append_assoc]
  · simp only [List.length_append, headerLength, dataLength, length_writeVarInt, firstTx]
    omega

theorem Laid.drop_firstTx :
    raw.drop (firstTx msg) = msg.transactions.flatMap MsgTx.serialize ++ rest := by
  obtain ⟨before, rfl, length⟩ := laid.split
  exact List.drop_left' length

theorem Laid.length :
    firstTx msg + (msg.transactions.flatMap MsgTx.serialize ++ rest).length = raw.length := by
  obtain ⟨before, rfl, length⟩ := laid.split
  rw [@List.length_append _ before, length]

theorem Laid.nonempty : 0 < raw.length := by
  have length := laid.length
  have header : maxBlockHeaderPayload ≤ firstTx msg := by
    rw [firstTx, MsgHeader.serializeSize]
    omega
  have positive : 0 < maxBlockHeaderPayload := by decide
  omega

end

theorem Laid.deserialize_eq (laid : Laid witnessEncoding raw msg rest) :
    ∃ slab, MsgBlock.deserialize.run scriptSlabSize scriptSlabSize raw = .done msg slab rest := by
  obtain ⟨header, data, split, _, _, headerDecodes, dataDecodes⟩ := laid.parts
  have decodes : MsgBlock.deserialize.Decodes scriptSlabSize
      (header ++ (data ++ (writeVarInt (UInt64.ofNat msg.transactions.length) ++
        msg.transactions.flatMap MsgTx.serialize))) msg := by
    apply headerDecodes.bind
    apply (dataDecodes _).bind
    apply (decodes_readCount laid.count (by decide)).bind
    have transactions := @Decoder.Decodes.repeatTimes_encoded _ _ scriptSlabSize
      (readTx witnessEncoding) MsgTx.serialize msg.transactions laid.bodies
    exact transactions.map (MsgBlock.mk msg.msgHeader msg.auxPow)
  obtain ⟨slab, read⟩ := decodes scriptSlabSize rest
  refine ⟨slab, ?_⟩
  rw [split, writeCounted]
  simpa only [List.append_assoc] using read

theorem Laid.deserializeTxLoc_eq (laid : Laid enc raw msg rest) :
    ∃ slab, deserializeTxLoc raw = readTxLocs raw.length msg.transactions.length
      slab (msg.transactions.flatMap MsgTx.serialize ++ rest) := by
  obtain ⟨header, data, split, _, _, headerDecodes, dataDecodes⟩ := laid.parts
  have counted : readTxCount.Decodes scriptSlabSize
      (header ++ (data ++ writeVarInt (UInt64.ofNat msg.transactions.length)))
      msg.transactions.length := by
    apply headerDecodes.bind
    apply (dataDecodes _).bind
    exact decodes_readCount laid.count (by decide)
  obtain ⟨slab, read⟩ := counted scriptSlabSize (msg.transactions.flatMap MsgTx.serialize ++ rest)
  have whole : raw = header ++ (data ++ writeVarInt (UInt64.ofNat msg.transactions.length)) ++
        (msg.transactions.flatMap MsgTx.serialize ++ rest) := by
    rw [split, writeCounted]
    simp only [List.append_assoc]
  rw [← whole] at read
  refine ⟨slab, ?_⟩
  simp only [deserializeTxLoc, read]

theorem slice_locationsFrom
    (stands : raw.drop start = transactions.flatMap MsgTx.serialize ++ rest) :
    (locationsFrom start transactions).map (fun loc => slice raw loc.txStart loc.txLen) =
      transactions.map MsgTx.serialize := by
  induction transactions generalizing start with
  | nil => rfl
  | cons tx others ih =>
    rw [List.flatMap_cons, List.append_assoc] at stands
    have next : raw.drop (start + tx.serialize.length) =
        others.flatMap MsgTx.serialize ++ rest := by
      rw [← List.drop_drop, stands, List.drop_left]
    simp only [locationsFrom, List.map_cons, ih next]
    rw [slice, stands, List.take_left]

/-- The locations are right exactly when every transaction can be read in the
witness encoding. -/
theorem Laid.locates_iff (laid : Laid enc raw msg rest) :
    (∃ txLocs slab rest', deserializeTxLoc raw = .done txLocs slab rest' ∧
      txLocs.map (fun loc => slice raw loc.txStart loc.txLen) =
        msg.transactions.map MsgTx.serialize) ↔ ∀ tx ∈ msg.transactions, Locatable tx := by
  obtain ⟨slab, read⟩ := laid.deserializeTxLoc_eq
  have stands := laid.drop_firstTx
  have total := laid.length
  rw [read]
  constructor
  · rintro ⟨txLocs, slab', rest', finished, located⟩
    rw [← stands] at finished
    exact locatable_of_readTxLocs stands (by omega) finished located
  · intro locatable
    obtain ⟨slab', finished⟩ := @readTxLocs_eq slab _ _ _ _ locatable total
    exact ⟨_, slab', rest, finished, slice_locationsFrom stands⟩

theorem Laid.serialize_prefixFree (laid : Laid enc raw msg rest) :
    PrefixFreeOn (· ∈ msg.transactions) MsgTx.serialize := by
  intro first second firstMember secondMember rest rest' equality
  obtain ⟨slab, firstRead⟩ := laid.bodies first firstMember 0 rest
  obtain ⟨slab', secondRead⟩ := laid.bodies second secondMember 0 rest'
  rw [equality, secondRead] at firstRead
  injection firstRead with value _ remaining
  exact ⟨value.symm, remaining.symm⟩

end ModelOS.Wire
