import ModelOS.BtcUtil.Block

namespace ModelOS.BtcUtil

open Data Wire

section Wrap

variable {sha256d : Bytes → Hash}

def pending : List MsgTx → List (Option Tx) → List MsgTx
  | msgTx :: msgTxs, none :: slots => msgTx :: pending msgTxs slots
  | _ :: msgTxs, some _ :: slots => pending msgTxs slots
  | _, _ => []

def SlotRight (sha256d : Bytes → Hash) (msgTx : MsgTx) (slot : Option Tx) : Prop :=
  ∀ tx ∈ slot, tx.Right sha256d msgTx

theorem wrapTransactions_uncached {offset index : Nat} {msgTxs : List MsgTx}
    {slots : List (Option Tx)} (right : List.Forall₂ (SlotRight sha256d) msgTxs slots) :
    ∃ wrapped, wrapTransactions [] offset index msgTxs slots = wrapped.map some ∧
      List.Forall₂ (Tx.Right sha256d) msgTxs wrapped := by
  induction right generalizing index with
  | nil => exact ⟨[], rfl, .nil⟩
  | @cons msgTx slot msgTxs slots head _ ih =>
    obtain ⟨wrapped, equality, all⟩ := @ih (index + 1)
    cases slot with
    | none =>
      refine ⟨(newTx msgTx).setIndex index :: wrapped, ?_, .cons (Tx.right_newTx msgTx index) all⟩
      rw [wrapTransactions, if_neg (by simp), equality]
      rfl
    | some tx =>
      refine ⟨tx :: wrapped, ?_, .cons (head tx rfl) all⟩
      rw [wrapTransactions, equality]
      rfl

/-- With the bytes at hand, the transactions are right exactly when those of the
empty slots stand at the offset, one behind the other. -/
theorem wrapTransactions_cached {raw : Bytes} {offset index : Nat}
    {msgTxs : List MsgTx} {slots : List (Option Tx)}
    (right : List.Forall₂ (SlotRight sha256d) msgTxs slots)
    (inside : offset + ((pending msgTxs slots).map MsgTx.serializeSize).sum ≤ raw.length)
    (nonempty : 0 < raw.length) : ∃ wrapped, wrapTransactions raw offset index msgTxs slots =
        wrapped.map some ∧ ((pending msgTxs slots).flatMap MsgTx.serialize <+: raw.drop offset →
        List.Forall₂ (Tx.Right sha256d) msgTxs wrapped) ∧ ((∀ msgTx ∈ msgTxs, ∀ offset,
          sha256d (slice raw offset msgTx.serializeSize) = sha256d msgTx.serialize →
          slice raw offset msgTx.serializeSize = msgTx.serialize) →
        List.Forall₂ (Tx.Right sha256d) msgTxs wrapped →
        (pending msgTxs slots).flatMap MsgTx.serialize <+: raw.drop offset) := by
  induction right generalizing offset index with
  | nil => exact ⟨[], rfl, fun _ => .nil, fun _ _ => List.nil_prefix⟩
  | @cons msgTx slot msgTxs slots head _ ih =>
    cases slot with
    | some tx =>
      obtain ⟨wrapped, equality, enough, needs⟩ := @ih offset (index + 1) inside
      refine ⟨tx :: wrapped, ?_, ?_, ?_⟩
      · rw [wrapTransactions, equality]
        rfl
      · intro stands
        exact .cons (head tx rfl) (enough stands)
      · intro collisionFree all
        exact needs (fun msgTx member => collisionFree msgTx
          (.tail _ member)) (List.forall₂_cons.mp all).2
    | none =>
      rw [pending, List.map_cons, List.sum_cons] at inside
      obtain ⟨wrapped, equality, enough, needs⟩ :=
        @ih (offset + msgTx.serializeSize) (index + 1) (by omega)
      have size := length_serialize msgTx
      have cut : (slice raw offset msgTx.serializeSize).length =
          msgTx.serializeSize := length_slice _ _ _ (by omega)
      refine ⟨((newTx msgTx).setIndex index).setBytes
        (slice raw offset msgTx.serializeSize) :: wrapped, ?_, ?_, ?_⟩
      · rw [wrapTransactions, if_pos nonempty, equality]
        rfl
      · intro stands
        rw [pending, List.flatMap_cons, append_prefix_iff, size, List.drop_drop] at stands
        refine .cons ?_ (enough stands.2)
        rw [slice, stands.1]
        exact Tx.right_setBytes_serialize msgTx index
      · intro collisionFree all
        obtain ⟨first, others⟩ := List.forall₂_cons.mp all
        have positive : 0 < msgTx.serializeSize := by
          rw [MsgTx.serializeSize, MsgTx.baseSize]
          omega
        have whole := Tx.eq_serialize_of_right_setBytes (by omega)
          (collisionFree msgTx (.head _) offset) first
        rw [pending, List.flatMap_cons, append_prefix_iff, size, List.drop_drop]
        exact ⟨whole, needs (fun msgTx member => collisionFree msgTx (.tail _ member)) others⟩

end Wrap

/-! Once all transactions are wrapped. -/

section Complete

variable {sha256d : Bytes → Hash} {enc : MessageEncoding} {msg : MsgBlock} {raw rest : Bytes}

/-- What `Bytes` gives is settled. -/
def Settled (msg : MsgBlock) (raw : Bytes) (block : Block) : Prop :=
  block.serializedBlock = raw ∨ block.serializedBlock = [] ∧ msg.serialize = .ok raw

variable {block : Block} {txNum : Int}

theorem blockBytes_eq (msgBlock : block.msgBlock = msg) (settled : Settled msg raw block)
    (nonempty : 0 < raw.length) :
    blockBytes block = (.ok raw, { block with serializedBlock := raw }) := by
  rcases settled with cached | ⟨empty, encoded⟩
  · rw [blockBytes, cached, if_pos (by omega), ← cached]
  · rw [blockBytes, empty, if_neg (by simp), msgBlock, encoded]

structure Complete (sha256d : Bytes → Hash) (msg : MsgBlock) (raw : Bytes)
    (block : Block) : Prop where
  msgBlock : block.msgBlock = msg
  settled : Settled msg raw block
  generated : block.txnsGenerated = true
  wrapped : ∃ wrapped, block.transactions = wrapped.map some ∧
    List.Forall₂ (Tx.Right sha256d) msg.transactions wrapped

theorem getElem?_of_forall₂ {relation : α → β → Prop} {first : List α}
    {second : List β} (related : List.Forall₂ relation first second) {index : Nat}
    {value : α} (found : first[index]? = some value) :
    ∃ value', second[index]? = some value' ∧ relation value value' := by
  induction related generalizing index with
  | nil => cases found
  | cons head _ ih =>
    cases index with
    | zero =>
      obtain rfl := Option.some.inj found
      exact ⟨_, rfl, head⟩
    | succ index => exact ih found

theorem forall₂_set (related : List.Forall₂ relation first second)
    (found : first[index]? = some value) (holds : relation value value') :
    List.Forall₂ relation first (second.set index value') := by
  induction related generalizing index with
  | nil => exact .nil
  | cons head tail ih =>
    cases index with
    | zero =>
      obtain rfl := Option.some.inj found
      exact .cons holds tail
    | succ index => exact .cons head (ih found)

theorem Complete.slots_eq (complete : Complete sha256d msg raw block) :
    block.slots = block.transactions := by
  obtain ⟨wrapped, equality, right⟩ := complete.wrapped
  rw [Block.slots]
  split
  · rename_i empty
    have none : block.transactions = [] := List.eq_nil_of_length_eq_zero empty
    rw [none] at equality
    have noneWrapped := List.map_eq_nil_iff.mp equality.symm
    rw [noneWrapped] at right
    rw [none, complete.msgBlock, List.forall₂_nil_right_iff.mp right]
    rfl
  · rfl

theorem Complete.cached (complete : Complete sha256d msg raw block) :
    Complete sha256d msg raw { block with serializedBlock := raw } :=
  ⟨complete.msgBlock, .inl rfl, complete.generated, complete.wrapped⟩

/-- What a call for one transaction leaves: it is wrapped if there is one. -/
inductive Touched (sha256d : Bytes → Hash) (msg : MsgBlock) (block : Block) (txNum : Int) :
    Block → Prop
  | outside (outOfRange : ¬ (0 ≤ txNum ∧ txNum.toNat < msg.transactions.length)) :
      Touched sha256d msg block txNum block
  | wrapped {msgTx : MsgTx} {tx : Tx} (positive : 0 ≤ txNum)
      (found : msg.transactions[txNum.toNat]? = some msgTx) (right : tx.Right sha256d msgTx) :
      Touched sha256d msg block txNum
        { block with transactions := block.slots.set txNum.toNat (some tx) }

section Touch

variable (msgBlock : block.msgBlock = msg)
  (slots : List.Forall₂ (SlotRight sha256d) msg.transactions block.slots)
include msgBlock slots

theorem blockTx_cases (txNum : Int) :
    (∃ msgTx tx, 0 ≤ txNum ∧ msg.transactions[txNum.toNat]? = some msgTx ∧
      tx.Right sha256d msgTx ∧ blockTx txNum block =
        (.ok tx, { block with transactions := block.slots.set txNum.toNat (some tx) })) ∨
    ¬ (0 ≤ txNum ∧ txNum.toNat < msg.transactions.length) ∧
      ∃ error, blockTx txNum block = (.error error, block) := by
  subst msgBlock
  rw [blockTx]
  by_cases inRange : ¬ txNum < 0 ∧ txNum.toNat < block.msgBlock.transactions.length
  · obtain ⟨slot, slotFound, slotRight⟩ :=
      getElem?_of_forall₂ slots (List.getElem?_eq_getElem inRange.2)
    refine .inl ⟨block.msgBlock.transactions.get ⟨txNum.toNat, inRange.2⟩, ?_⟩
    simp only [dif_pos inRange, slotFound, Option.join_some]
    cases slot with
    | some tx =>
      have unchanged : block.slots.set txNum.toNat (some tx) = block.slots := by
        apply List.ext_getElem?
        intro index
        rw [List.getElem?_set]
        split
        · rename_i here
          rw [← here, slotFound, if_pos (List.getElem?_eq_some_iff.mp slotFound).1]
        · rfl
      exact ⟨tx, by omega, List.getElem?_eq_getElem inRange.2, slotRight tx rfl,
        by simp only [unchanged]⟩
    | none =>
      exact ⟨_, by omega, List.getElem?_eq_getElem inRange.2, Tx.right_newTx _ txNum, rfl⟩
  · exact .inr ⟨fun inside => inRange ⟨by omega, inside.2⟩, _, dif_neg inRange⟩

theorem call_tx (txNum : Int) :
    AnswersRightly sha256d msg block (.tx txNum) (block.call sha256d (.tx txNum)).1 ∧
      Touched sha256d msg block txNum (block.call sha256d (.tx txNum)).2 := by
  rcases blockTx_cases msgBlock slots txNum with
    ⟨msgTx, tx, positive, found, right, called⟩ | ⟨outOfRange, error, called⟩
  · simp only [Block.call, called]
    refine ⟨?_, .wrapped positive found right⟩
    intro msgTx' _ found'
    obtain rfl := Option.some.inj (found.symm.trans found')
    exact ⟨tx, rfl, right⟩
  · simp only [Block.call, called]
    refine ⟨?_, .outside outOfRange⟩
    intro msgTx positive found
    exact absurd ⟨positive, (List.getElem?_eq_some_iff.mp found).1⟩ outOfRange

theorem call_txHash (txNum : Int) :
    AnswersRightly sha256d msg block (.txHash txNum) (block.call sha256d (.txHash txNum)).1 ∧
      Touched sha256d msg block txNum (block.call sha256d (.txHash txNum)).2 := by
  rcases blockTx_cases msgBlock slots txNum with
    ⟨msgTx, tx, positive, found, right, called⟩ | ⟨outOfRange, error, called⟩
  · simp only [Block.call, blockTxHash, called, right.hash, List.set_set]
    refine ⟨?_, .wrapped positive found right.hashed⟩
    intro msgTx' _ found'
    obtain rfl := Option.some.inj (found.symm.trans found')
    rfl
  · simp only [Block.call, blockTxHash, called]
    refine ⟨?_, .outside outOfRange⟩
    intro msgTx positive found
    exact absurd ⟨positive, (List.getElem?_eq_some_iff.mp found).1⟩ outOfRange

end Touch

theorem Complete.slots (complete : Complete sha256d msg raw block) :
    List.Forall₂ (SlotRight sha256d) msg.transactions block.slots := by
  obtain ⟨wrapped, equality, right⟩ := complete.wrapped
  rw [complete.slots_eq, equality, List.forall₂_map_right_iff]
  refine right.imp fun msgTx tx isRight other member => ?_
  obtain rfl := Option.some.inj member
  exact isRight

theorem Complete.touched (complete : Complete sha256d msg raw block)
    (touched : Touched sha256d msg block txNum after) : Complete sha256d msg raw after := by
  cases touched with
  | outside => exact complete
  | @wrapped msgTx tx _ found right =>
    obtain ⟨wrapped, equality, all⟩ := complete.wrapped
    refine ⟨complete.msgBlock, complete.settled, complete.generated,
      wrapped.set txNum.toNat tx, ?_, forall₂_set all found right⟩
    rw [List.map_set, ← equality, complete.slots_eq]

theorem call_txLoc (msgBlock : block.msgBlock = msg) (settled : Settled msg raw block)
    (laid : Laid enc raw msg rest) : block.call sha256d .txLoc = (.txLoc (deserializeTxLoc raw),
        { block with serializedBlock := raw }) ∧
      (AnswersRightly sha256d msg block .txLoc (.txLoc (deserializeTxLoc raw)) ↔
        ∀ tx ∈ msg.transactions, Locatable tx) := by
  have bytes := blockBytes_eq msgBlock settled laid.nonempty
  constructor
  · simp only [Block.call, blockTxLoc, bytes]
  · rw [← laid.locates_iff]
    constructor
    · rintro ⟨raw', txLocs, slab, rest', same, located, slices⟩
      rw [bytes] at same
      obtain rfl := Except.ok.inj same
      injection located with located
      exact ⟨txLocs, slab, rest', located, slices⟩
    · rintro ⟨txLocs, slab, rest', located, slices⟩
      exact ⟨raw, txLocs, slab, rest', by rw [bytes], by rw [located], slices⟩

theorem Complete.call (complete : Complete sha256d msg raw block) (laid : Laid enc raw msg rest)
    (call : Call) : Complete sha256d msg raw (block.call sha256d call).2 ∧
      (AnswersRightly sha256d msg block call (block.call sha256d call).1 ↔
        (call = .bytes → msg.serialize = .ok raw) ∧
        (call = .txLoc → ∀ tx ∈ msg.transactions, Locatable tx)) := by
  have bytes := blockBytes_eq complete.msgBlock complete.settled laid.nonempty
  cases call with
  | bytes =>
    simp only [Block.call, bytes]
    refine ⟨complete.cached, ?_⟩
    simp only [forall_const, reduceCtorEq, false_implies, and_true]
    constructor
    · rintro ⟨right, encoded, same⟩
      injection same with same
      rw [encoded, Except.ok.inj same]
    · intro encoded
      exact ⟨raw, encoded, rfl⟩
  | tx txNum =>
    simp only [reduceCtorEq, false_implies, and_self, iff_true]
    obtain ⟨right, touched⟩ := call_tx complete.msgBlock complete.slots txNum
    exact ⟨complete.touched touched, right⟩
  | txHash txNum =>
    simp only [reduceCtorEq, false_implies, and_self, iff_true]
    obtain ⟨right, touched⟩ := call_txHash complete.msgBlock complete.slots txNum
    exact ⟨complete.touched touched, right⟩
  | transactions =>
    simp only [reduceCtorEq, false_implies, and_self, iff_true]
    obtain ⟨wrapped, equality, right⟩ := complete.wrapped
    simp only [Block.call, blockTransactions, complete.generated, if_true]
    exact ⟨complete, wrapped, by rw [equality], right⟩
  | txLoc =>
    obtain ⟨called, right⟩ := @call_txLoc sha256d enc msg raw rest block
      complete.msgBlock complete.settled laid
    rw [called]
    simp only [reduceCtorEq, false_implies, true_and, forall_const]
    exact ⟨complete.cached, right⟩

theorem Complete.faithful_iff (complete : Complete sha256d msg raw block)
    (laid : Laid enc raw msg rest) : Faithful sha256d msg block calls ↔
      (Call.bytes ∈ calls → msg.serialize = .ok raw) ∧
      (Call.txLoc ∈ calls → ∀ tx ∈ msg.transactions, Locatable tx) := by
  induction calls generalizing block with
  | nil => simp [Faithful]
  | cons call calls ih =>
    obtain ⟨stays, right⟩ := complete.call laid call
    rw [Faithful, right, ih stays]
    simp only [List.mem_cons, or_imp, eq_comm (b := call)]
    exact and_and_and_comm

end Complete

end ModelOS.BtcUtil
