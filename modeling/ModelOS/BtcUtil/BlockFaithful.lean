import ModelOS.BtcUtil.BlockCache

namespace ModelOS.BtcUtil

open Data Wire

/-! While transactions are asked for one by one. -/

section Single

variable {sha256d : Bytes → Hash} {enc : MessageEncoding} {msg : MsgBlock} {bytes : Bytes}

variable {touched : List Int} {cached : Bool} {block : Block}

theorem pending_eq_filter
    (length : msgTxs.length = slots.length)
    (filled : ∀ (index : Nat) slot, slots[index]? = some slot →
      (slot.isSome = true ↔ ((start + index : Nat) : Int) ∈ touched)) : pending msgTxs slots =
      ((msgTxs.zipIdx start).filter fun (_, index) =>
        (index : Int) ∉ touched).map Prod.fst := by
  induction msgTxs generalizing slots start with
  | nil =>
    cases slots with
    | nil => rfl
    | cons slot slots => cases length
  | cons msgTx msgTxs ih =>
    cases slots with
    | nil => cases length
    | cons slot slots =>
      have others := @ih slots (start + 1) (by simpa using length) (by
        intro index slot found
        have next := filled (index + 1) slot found
        rwa [show start + (index + 1) = start + 1 + index by omega] at next)
      have head := filled 0 slot rfl
      rw [Nat.add_zero] at head
      cases slot with
      | none =>
        have absent : (start : Int) ∉ touched := by
          intro member
          exact absurd (head.mpr member) (by simp)
        rw [pending, others, List.zipIdx_cons, List.filter_cons_of_pos (by simpa using absent)]
        rfl
      | some tx =>
        have member : (start : Int) ∈ touched := head.mp rfl
        rw [pending, others, List.zipIdx_cons, List.filter_cons_of_neg (by simpa using member)]

structure Single (sha256d : Bytes → Hash) (msg : MsgBlock) (bytes : Bytes)
    (cached : Bool) (touched : List Int) (block : Block) : Prop where
  msgBlock : block.msgBlock = msg
  generated : block.txnsGenerated = false
  serialized : block.serializedBlock = if cached then bytes else []
  slots : List.Forall₂ (SlotRight sha256d) msg.transactions block.slots
  filled : ∀ (index : Nat) slot, block.slots[index]? = some slot →
    (slot.isSome = true ↔ (index : Int) ∈ touched)

theorem single_newBlock (msg : MsgBlock) : Single sha256d msg bytes false [] (newBlock msg) := by
  have empty : (newBlock msg).slots = List.replicate msg.transactions.length none := rfl
  refine ⟨rfl, rfl, rfl, ?_, ?_⟩
  · rw [empty, ← List.map_const', List.forall₂_map_right_iff]
    exact List.forall₂_same.mpr (by rintro _ _ _ ⟨⟩)
  · intro index slot found
    rw [empty] at found
    obtain rfl := List.eq_of_mem_replicate (List.mem_of_getElem? found)
    simp

section

variable (single : Single sha256d msg bytes cached touched block)
include single

theorem Single.settled (encoded : msg.serialize = .ok bytes) : Settled msg bytes block := by
  have serialized := single.serialized
  cases cached with
  | true => exact .inl serialized
  | false => exact .inr ⟨serialized, encoded⟩

theorem Single.cache : Single sha256d msg bytes true touched
      { block with serializedBlock := bytes } :=
  ⟨single.msgBlock, single.generated, rfl, single.slots, single.filled⟩

theorem Single.set (positive : 0 ≤ txNum)
    (found : msg.transactions[txNum.toNat]? = some msgTx) (right : tx.Right sha256d msgTx) :
    Single sha256d msg bytes cached (txNum :: touched)
      { block with transactions := block.slots.set txNum.toNat (some tx) } := by
  have length := single.slots.length_eq
  have inRange := (List.getElem?_eq_some_iff.mp found).1
  have same : { block with transactions := block.slots.set txNum.toNat (some tx) }.slots =
        block.slots.set txNum.toNat (some tx) := by
    rw [Block.slots, if_neg]
    rw [List.length_set, ← length]
    omega
  refine ⟨single.msgBlock, single.generated, single.serialized, ?_, ?_⟩
  · rw [same]
    apply forall₂_set single.slots found
    intro other member
    obtain rfl := Option.some.inj member
    exact right
  · intro index slot foundSlot
    rw [same, List.getElem?_set] at foundSlot
    rw [List.mem_cons]
    split at foundSlot
    · rename_i here
      split at foundSlot
      · obtain rfl := Option.some.inj foundSlot
        simp only [Option.isSome_some, true_iff]
        exact .inl (by omega)
      · cases foundSlot
    · rename_i elsewhere
      rw [single.filled index slot foundSlot]
      constructor
      · exact .inr
      · intro member
        rcases member with here | other
        · exact absurd (by omega) elsewhere
        · exact other

theorem Single.touch
    (outOfRange : ¬ (0 ≤ txNum ∧ txNum.toNat < msg.transactions.length)) :
    Single sha256d msg bytes cached (txNum :: touched) block := by
  refine ⟨single.msgBlock, single.generated, single.serialized, single.slots, ?_⟩
  intro index slot found
  have length := single.slots.length_eq
  have inside := (List.getElem?_eq_some_iff.mp found).1
  rw [single.filled index slot found, List.mem_cons]
  constructor
  · exact .inr
  · intro member
    rcases member with here | other
    · exact absurd ⟨by omega, by omega⟩ outOfRange
    · exact other

theorem Single.one
    (wraps : Touched sha256d msg block txNum after) :
    Single sha256d msg bytes cached (txNum :: touched) after := by
  cases wraps with
  | outside outOfRange => exact single.touch outOfRange
  | wrapped positive found right => exact single.set positive found right

theorem Single.pending_eq : pending msg.transactions block.slots = untouched msg touched := by
  apply pending_eq_filter single.slots.length_eq
  intro index slot found
  rw [Nat.zero_add]
  exact single.filled index slot found

end

theorem untouched_sublist (msg : MsgBlock) (touched : List Int) :
    List.Sublist (untouched msg touched) msg.transactions := by
  have sublist := (List.filter_sublist (l := msg.transactions.zipIdx)
    (p := fun (_, index) => decide ((index : Int) ∉ touched))).map Prod.fst
  rwa [List.zipIdx_map_fst] at sublist

theorem serialize_ne_nil (tx : MsgTx) : tx.serialize ≠ [] := by
  intro empty
  have size := length_serialize tx
  rw [empty, MsgTx.serializeSize, MsgTx.baseSize, List.length_nil] at size
  omega

theorem length_flatMap_le (sublist : List.Sublist first second) :
    (first.flatMap MsgTx.serialize).length ≤ (second.flatMap MsgTx.serialize).length :=
  (sublist.flatMap MsgTx.serialize).length_le

theorem flatMap_prefix_iff (laid : Laid enc raw msg rest)
    (sublist : List.Sublist others msg.transactions) :
    others.flatMap MsgTx.serialize <+: raw.drop (firstTx msg) ↔ others <+: msg.transactions := by
  rw [laid.drop_firstTx, ← laid.serialize_prefixFree.prefix_iff serialize_ne_nil
    (fun tx member => sublist.subset member) (fun tx member => member)]
  constructor
  · intro stands
    exact List.prefix_of_prefix_length_le stands (List.prefix_append _ rest)
      (length_flatMap_le sublist)
  · intro first
    exact first.trans (List.prefix_append _ rest)

theorem pending_inside (laid : Laid enc raw msg rest)
    (sublist : List.Sublist others msg.transactions) :
    firstTx msg + (others.map MsgTx.serializeSize).sum ≤ raw.length := by
  have length := laid.length
  have shorter := length_flatMap_le sublist
  rw [List.length_append] at length
  rw [List.length_flatMap] at shorter
  simp only [length_serialize] at shorter
  change (others.map MsgTx.serializeSize).sum ≤ _ at shorter
  omega

theorem Single.transactions (single : Single sha256d msg bytes cached touched block)
    (laid : Laid enc bytes msg [])
    (collisionFree : ∀ msgTx ∈ msg.transactions, ∀ offset,
      sha256d (slice bytes offset msgTx.serializeSize) = sha256d msgTx.serialize →
        slice bytes offset msgTx.serializeSize = msgTx.serialize) :
    ∃ wrapped, blockTransactions block = (wrapped.map some, { block with
        transactions := wrapped.map some, txnsGenerated := true }) ∧
      (List.Forall₂ (Tx.Right sha256d) msg.transactions wrapped ↔
        (cached → untouched msg touched <+: msg.transactions)) := by
  have serialized := single.serialized
  have sublist := untouched_sublist msg touched
  simp only [blockTransactions, single.generated, single.msgBlock]
  cases cached with
  | false =>
    obtain ⟨wrapped, equality, right⟩ := @wrapTransactions_uncached sha256d
      (firstTx msg) 0 _ _ single.slots
    refine ⟨wrapped, ?_, by simpa using right⟩
    simp [serialized, equality]
  | true =>
    obtain ⟨wrapped, equality, enough, needs⟩ := @wrapTransactions_cached sha256d
      bytes (firstTx msg) 0 _ _ single.slots
      (single.pending_eq ▸ pending_inside laid sublist) laid.nonempty
    rw [single.pending_eq, flatMap_prefix_iff laid sublist] at enough needs
    refine ⟨wrapped, ?_, ?_⟩
    · simp [serialized, equality]
    · simp only [forall_const]
      exact ⟨needs collisionFree, enough⟩

theorem Single.faithful_iff
    (single : Single sha256d msg bytes cached touched block) (encoded : msg.serialize = .ok bytes)
    (laid : Laid enc bytes msg []) (collisionFree : ∀ msgTx ∈ msg.transactions, ∀ offset,
      sha256d (slice bytes offset msgTx.serializeSize) = sha256d msgTx.serialize →
        slice bytes offset msgTx.serializeSize = msgTx.serialize) :
    Faithful sha256d msg block calls ↔ KeepsOrder msg cached touched calls ∧
      (Call.txLoc ∈ calls → ∀ tx ∈ msg.transactions, Locatable tx) := by
  induction calls generalizing cached touched block with
  | nil => simp [Faithful, KeepsOrder]
  | cons call calls ih =>
    rw [Faithful]
    simp only [List.mem_cons, or_imp]
    cases call with
    | bytes =>
      have answered := blockBytes_eq single.msgBlock (single.settled encoded) laid.nonempty
      simp only [Block.call, answered, KeepsOrder, reduceCtorEq, false_implies, true_and]
      rw [ih single.cache]
      exact and_iff_right ⟨bytes, encoded, rfl⟩
    | txLoc =>
      obtain ⟨called, right⟩ := @call_txLoc sha256d enc msg bytes [] block
        single.msgBlock (single.settled encoded) laid
      simp only [called, right, ih single.cache, KeepsOrder, forall_const]
      exact and_left_comm
    | tx txNum =>
      obtain ⟨right, wraps⟩ := call_tx single.msgBlock single.slots txNum
      simp only [ih (single.one wraps), KeepsOrder, reduceCtorEq, false_implies, true_and]
      exact and_iff_right right
    | txHash txNum =>
      obtain ⟨right, wraps⟩ := call_txHash single.msgBlock single.slots txNum
      simp only [ih (single.one wraps), KeepsOrder, reduceCtorEq, false_implies, true_and]
      exact and_iff_right right
    | transactions =>
      obtain ⟨wrapped, answered, right⟩ := single.transactions laid collisionFree
      simp only [Block.call, answered, KeepsOrder, reduceCtorEq, false_implies, true_and]
      rw [← right]
      have complete : List.Forall₂ (Tx.Right sha256d) msg.transactions wrapped →
          Complete sha256d msg bytes { block with
            transactions := wrapped.map some, txnsGenerated := true } := by
        intro all
        exact ⟨single.msgBlock, single.settled encoded, rfl, wrapped, rfl, all⟩
      constructor
      · rintro ⟨⟨wrapped', same, all⟩, others⟩
        injection same with same
        obtain rfl := (List.map_injective_iff.mpr (Option.some_injective _)) same
        exact ⟨all, (((complete all).faithful_iff laid).mp others).2⟩
      · rintro ⟨all, locatable⟩
        exact ⟨⟨wrapped, rfl, all⟩, ((complete all).faithful_iff laid).mpr
          ⟨fun _ => encoded, locatable⟩⟩

end Single

section Constructors

variable {sha256d : Bytes → Hash} {enc : MessageEncoding} {slab slab' : Nat}
  {payload rest : Bytes} {msg : MsgBlock}

theorem pending_replicate_none (msgTxs : List MsgTx) :
    pending msgTxs (List.replicate msgTxs.length none) = msgTxs := by
  induction msgTxs with
  | nil => rfl
  | cons msgTx msgTxs ih =>
    rw [List.length_cons, List.replicate_succ, pending, ih]

theorem complete_newBlockFromBlockAndBytes (laid : Laid enc payload msg rest) :
    Complete sha256d msg payload (newBlockFromBlockAndBytes msg payload) := by
  have single := @single_newBlock sha256d payload msg
  have all : pending msg.transactions (newBlock msg).slots = msg.transactions :=
    pending_replicate_none msg.transactions
  obtain ⟨wrapped, equality, enough, _⟩ := @wrapTransactions_cached sha256d payload
    (firstTx msg) 0 _ _ single.slots
    (by rw [all]; exact pending_inside laid (List.Sublist.refl _)) laid.nonempty
  rw [all, laid.drop_firstTx] at enough
  exact ⟨rfl, .inl rfl, rfl, wrapped, equality, enough (List.prefix_append _ rest)⟩

theorem newBlockFromBytes_eq (laid : Laid witnessEncoding payload msg rest) :
    newBlockFromBytes payload = some (newBlockFromBlockAndBytes msg payload) := by
  obtain ⟨slab, read⟩ := laid.deserialize_eq
  simp only [newBlockFromBytes, read]

/-- Which sequences of calls on a block of a decoded payload are all answered as
the message itself would be. -/
theorem answers_faithful_iff
    (accepted : (prlDecodeBlock enc).run scriptSlabSize slab payload = .done msg slab' rest)
    (collisionFree : ∀ bytes, msg.serialize = .ok bytes → ∀ tx ∈ msg.transactions, ∀ offset,
        sha256d (slice bytes offset tx.serializeSize) = sha256d tx.serialize →
          slice bytes offset tx.serializeSize = tx.serialize) (calls : List Call) :
    (Faithful sha256d msg (newBlock msg) calls ↔ KeepsOrder msg false [] calls ∧
      (Call.txLoc ∈ calls → ∀ tx ∈ msg.transactions, Locatable tx)) ∧
    (Faithful sha256d msg (newBlockFromBlockAndBytes msg payload) calls ↔ (Call.bytes ∈ calls →
        rest = [] ∧ ∀ flag ∈ branchFlags payload msg, flag ≤ 1) ∧
      (Call.txLoc ∈ calls → ∀ tx ∈ msg.transactions, Locatable tx)) ∧ (enc = witnessEncoding →
      newBlockFromBytes payload = some (newBlockFromBlockAndBytes msg payload) ∧
      ∀ tx ∈ msg.transactions, Locatable tx) := by
  have laid := laid_of_run accepted
  obtain ⟨bytes, encoded, laidBytes⟩ := laid_serialize accepted
  refine ⟨?_, ?_, ?_⟩
  · exact (single_newBlock msg).faithful_iff encoded laidBytes (collisionFree bytes encoded)
  · rw [(complete_newBlockFromBlockAndBytes laid).faithful_iff laid, eq_serialize_iff accepted]
  · rintro rfl
    exact ⟨newBlockFromBytes_eq laid, fun tx member => ⟨tx, laid.bodies tx member⟩⟩

end Constructors

namespace TwoTransactions

def tx (lockTime : UInt32) : MsgTx where
  version := 1
  txIn := [{
    previousOutPoint := { hash := .zero 32, index := 0 }
    signatureScript := []
    witness := []
    sequence := 0 }]
  txOut := []
  lockTime := lockTime

def block : MsgBlock where
  msgHeader := {
    certificate := none
    blockHeader := {
      version := 1
      prevBlock := .zero 32
      merkleRoot := .zero 32
      timestamp := 0
      bits := 0
      proofCommitment := .zero 32 } }
  auxPow := none
  transactions := [tx 0, tx 1]

def payload : Bytes :=
  leBytes 4 0 ++ writeBlockHeader block.msgHeader.blockHeader ++
    [2] ++ (tx 0).serialize ++ (tx 1).serialize

def sha256d (bytes : Bytes) : Hash :=
  if bytes = (tx 0).serialize then
    .copy 32 [0x0b, 0xad, 0x62, 0xef, 0x3f, 0x31, 0xfe, 0xf6,
      0xf7, 0x17, 0xa7, 0x39, 0x56, 0x9e, 0x68, 0x6f,
      0x55, 0x08, 0x88, 0xe8, 0xd2, 0x80, 0x73, 0x5b,
      0xd0, 0x42, 0x52, 0x67, 0x5e, 0x56, 0x8e, 0x56]
  else if bytes = (tx 1).serialize then
    .copy 32 [0x22, 0x6e, 0xc0, 0xdd, 0x0b, 0x85, 0xcb, 0x62,
      0xb3, 0x0e, 0x47, 0xd6, 0x38, 0xd4, 0x97, 0xee,
      0xa7, 0xb4, 0xb4, 0x54, 0xd9, 0xd2, 0x0a, 0xce,
      0xe1, 0x36, 0xce, 0x7a, 0x9a, 0x25, 0xd8, 0x86]
  else .zero 32

theorem accepted : (prlDecodeBlock witnessEncoding).run scriptSlabSize scriptSlabSize payload =
      .done block scriptSlabSize [] := by
  decide +kernel

theorem sha256d_serialize : sha256d (tx 0).serialize ≠ sha256d (tx 1).serialize ∧
      sha256d (tx 0).serialize ≠ .zero 32 ∧ sha256d (tx 1).serialize ≠ .zero 32 := by
  decide

theorem collisionFree :
    ∀ tx ∈ block.transactions, sha256d bytes = sha256d tx.serialize → bytes = tx.serialize := by
  obtain ⟨different, first, second⟩ := sha256d_serialize
  have cases : bytes = (tx 0).serialize ∨ bytes = (tx 1).serialize ∨ sha256d bytes = .zero 32 := by
    by_cases isFirst : bytes = (tx 0).serialize
    · exact .inl isFirst
    · by_cases isSecond : bytes = (tx 1).serialize
      · exact .inr (.inl isSecond)
      · exact .inr (.inr (by rw [sha256d, if_neg isFirst, if_neg isSecond]))
  intro tx member same
  have which : tx = TwoTransactions.tx 0 ∨ tx = TwoTransactions.tx 1 := by
    simpa [block] using member
  rcases which with rfl | rfl <;> rcases cases with rfl | rfl | zero
  · rfl
  · exact absurd same.symm different
  · exact absurd (same.symm.trans zero) first
  · exact absurd same different
  · rfl
  · exact absurd (same.symm.trans zero) second

end TwoTransactions

/-- With the first transaction and then the bytes asked for, the second
transaction gets the hash of the first. -/
theorem answers_wrong_after_tx_bytes :
    (prlDecodeBlock witnessEncoding).run scriptSlabSize scriptSlabSize TwoTransactions.payload =
      .done TwoTransactions.block scriptSlabSize [] ∧
    ¬ Faithful TwoTransactions.sha256d TwoTransactions.block
      (newBlock TwoTransactions.block) [.tx 0, .bytes, .transactions] := by
  obtain ⟨bytes, encoded, laid⟩ := laid_serialize TwoTransactions.accepted
  refine ⟨TwoTransactions.accepted, ?_⟩
  rw [(single_newBlock TwoTransactions.block).faithful_iff encoded laid
    fun tx member offset => TwoTransactions.collisionFree tx member]
  rintro ⟨order, _⟩
  have misplaced : ¬ untouched TwoTransactions.block [0] <+:
      TwoTransactions.block.transactions := by decide
  exact misplaced (order rfl)

theorem answers_faithful_in_order : Faithful TwoTransactions.sha256d TwoTransactions.block
      (newBlock TwoTransactions.block)
      [.transactions, .bytes, .tx 0, .txHash 1, .txLoc, .transactions] ∧
    Faithful TwoTransactions.sha256d TwoTransactions.block
      (newBlockFromBlockAndBytes TwoTransactions.block TwoTransactions.payload)
      [.tx 0, .bytes, .transactions, .txHash 1, .txLoc] := by
  obtain ⟨unordered, _, fromBytes⟩ := answers_faithful_iff TwoTransactions.accepted
    (fun bytes _ tx member offset => TwoTransactions.collisionFree tx member)
    [.transactions, .bytes, .tx 0, .txHash 1, .txLoc, .transactions]
  obtain ⟨_, withBytes, _⟩ := answers_faithful_iff TwoTransactions.accepted
    (fun bytes _ tx member offset => TwoTransactions.collisionFree tx member)
    [.tx 0, .bytes, .transactions, .txHash 1, .txLoc]
  have locatable := (fromBytes rfl).2
  refine ⟨unordered.mpr ⟨by rintro ⟨⟩, fun _ => locatable⟩,
    withBytes.mpr ⟨fun _ => ⟨rfl, ?_⟩, fun _ => locatable⟩⟩
  decide +kernel

end ModelOS.BtcUtil
