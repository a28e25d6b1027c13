import ModelOS.BlockChain.AcceptedChain
import ModelOS.BlockChain.TxSanity
import ModelOS.Data.LedgerHistory

namespace ModelOS.BlockChain

open Data Wire

/-! No transaction identifier occurs twice on a chain whose coinbases carry their
heights. -/

/-- Every block of the chain has passed the checks on top of its parent. -/
def InContext (rules : ChainRules) (node : BlockNode) : Prop :=
  ∀ parent block, BlockNode.child parent block ∈ node.ancestors →
    ∃ checkpoint, PassesContext rules parent block checkpoint

def txMessages (node : BlockNode) : Set Bytes :=
  {message | ∃ entry ∈ chainTxs node, message = entry.2.serializeNoWitness}

/-! Heights are 32-bit numbers, but no coinbase can carry the height behind the smallest
one. -/

theorem height_add_one (node : BlockNode) :
    node.height + 1 = Int32.ofNat node.ancestors.length := by
  induction node with
  | genesis block => rfl
  | child parent block ih =>
    rw [BlockNode.height, ih, BlockNode.ancestors, List.length_cons, Int32.ofNat_add]
    rfl

theorem extractCoinbaseHeight_ne (coinbaseTx : MsgTx) :
    extractCoinbaseHeight coinbaseTx ≠ .ok (-2147483647) := by
  intro extracted
  rw [extractCoinbaseHeight] at extracted
  split at extracted
  · cases extracted
  · next opcode script _ =>
    split at extracted
    · cases extracted
    · split at extracted
      · next small =>
        have bound := UInt8.le_iff_toNat_le.mp small.2
        have height := congrArg Int32.toInt (Except.ok.inj extracted)
        rw [Int32.toInt_ofNat_of_lt (by change opcode.toNat ≤ 96 at bound; omega)]
          at height
        change ((opcode.toNat - 80 : Nat) : Int) = -2147483647 at height
        omega
      · simp only [bind_eq_ok, require_eq_ok, pure_eq_ok]
          at extracted
        obtain ⟨_, _, _, minimal, height⟩ := extracted
        -- the number would be pushed as four bytes 0xff, which are read as -1
        rw [height] at minimal
        obtain ⟨rest, pushed⟩ := List.isPrefixOf_iff_prefix.mp minimal
        have data : addInt64 (-2147483647 : Int32).toInt = [4, 0xff, 0xff, 0xff, 0xff] := by
          decide
        rw [data] at pushed
        obtain ⟨rfl, rfl⟩ := List.cons.inj pushed
        exact absurd height (by simp [FixedBytes.copy, leNat])

theorem checkSerializedHeight_ne
    (checked : checkSerializedHeight coinbaseTx wantHeight = .ok ()) :
    extractCoinbaseHeight coinbaseTx = .ok wantHeight ∧ wantHeight ≠ -2147483647 := by
  simp only [checkSerializedHeight, bind_eq_ok, require_eq_ok] at checked
  obtain ⟨height, extracted, rfl⟩ := checked
  refine ⟨extracted, ?_⟩
  rintro rfl
  exact extractCoinbaseHeight_ne coinbaseTx extracted

section Chain

variable {rules : ChainRules} {inference : InferenceRules} {node parent : BlockNode}
  {block : MsgBlock}

theorem InContext.below
    (context : InContext rules (.child parent block)) : InContext rules parent :=
  fun lower block member => context lower block (.tail _ member)

theorem InContext.checkSerializedHeight
    (context : InContext (rules.withInference inference) node)
    (member : BlockNode.child parent block ∈ node.ancestors)
    (transactions : block.transactions = coinbaseTx :: others) :
    BlockChain.checkSerializedHeight coinbaseTx (parent.height + 1) = .ok () := by
  obtain ⟨checkpoint, passes⟩ := context parent block member
  simp only [PassesContext, checkBlockContext, BehaviorFlags.none,
    Bool.false_eq_true, if_false, bind_eq_ok, describe_eq_ok, transactions,
    List.head?_cons] at passes
  obtain ⟨_, _, _, _, _, _, _, height, _⟩ := passes
  exact height

theorem AcceptedChain.length_ancestors_le
    (accepted : AcceptedChain (rules.withInference inference) node)
    (context : InContext (rules.withInference inference) node) :
    node.ancestors.length ≤ 2147483649 := by
  induction node with
  | genesis block =>
    rw [BlockNode.ancestors, List.length_singleton]
    omega
  | child parent block ih =>
    have below := ih accepted.below context.below
    obtain ⟨_, _, sane⟩ := accepted.sane
    obtain ⟨coinbaseTx, others, transactions, _⟩ := (sane_of_checkBlockSanity sane).coinbaseFirst
    obtain ⟨_, height⟩ := checkSerializedHeight_ne
      (context.checkSerializedHeight (.head _) transactions)
    rw [height_add_one] at height
    have short : parent.ancestors.length ≠ 2147483649 := by
      intro length
      rw [length] at height
      exact height rfl
    rw [BlockNode.ancestors, List.length_cons]
    omega

theorem AcceptedChain.eq_of_height_eq
    (accepted : AcceptedChain (rules.withInference inference) node)
    (context : InContext (rules.withInference inference) node)
    (firstMember : first ∈ node.ancestors) (secondMember : second ∈ node.ancestors)
    (heights : first.height = second.height) : first = second := by
  apply eq_of_length_ancestors firstMember secondMember
  have bound := accepted.length_ancestors_le context
  have firstBound := BlockNode.length_ancestors_le firstMember
  have secondBound := BlockNode.length_ancestors_le secondMember
  have lengths : Int32.ofNat first.ancestors.length = Int32.ofNat second.ancestors.length := by
    rw [← height_add_one, ← height_add_one, heights]
  have words := congrArg (fun height : Int32 => height.toBitVec.toNat) lengths
  simp only [Int32.toBitVec_ofNat', BitVec.toNat_ofNat] at words
  omega

end Chain

def chainHistory (rules : ChainRules) (node : BlockNode) :
    List (Hash × Transfer OutPoint SpentTxOut) :=
  (chainTxs node).map fun (block, tx) =>
    (rules.txHash tx, txTransfer rules.toTxRules block.height tx)

section History

variable {rules : ChainRules} {inference : InferenceRules} {node : BlockNode}

theorem map_snd_chainHistory_child (parent : BlockNode) (block : MsgBlock) :
    (chainHistory rules (.child parent block)).map Prod.snd =
      (chainHistory rules parent).map Prod.snd ++ transfersOf rules (.child parent block) := by
  simp only [chainHistory, chainTxs, List.map_append, List.map_map]
  rfl

theorem applyAll_chainHistory :
    Ledger.applyAll ((chainHistory rules node).map Prod.snd) (fun _ => none) =
      utxosOf rules node := by
  induction node with
  | genesis block => rfl
  | child parent block ih =>
    rw [map_snd_chainHistory_child, Ledger.applyAll_append, ih]
    rfl

theorem AcceptedChain.connectsAll (accepted : AcceptedChain rules node)
    (inOrder : ChainInOrder rules node) :
    Ledger.ConnectsAll ((chainHistory rules node).map Prod.snd) fun _ => none := by
  induction node with
  | genesis block => trivial
  | child parent block ih =>
    rw [map_snd_chainHistory_child, Ledger.connectsAll_append, applyAll_chainHistory]
    exact ⟨ih accepted.below fun lower below member => inOrder lower below (.tail _ member),
      accepted.connects (inOrder parent block (.head _))⟩

variable {entry : BlockNode × MsgTx}

theorem exists_block_of_mem_chainTxs (member : entry ∈ chainTxs node) :
    entry.1 ∈ node.ancestors ∧
      ∃ parent block, entry.1 = .child parent block ∧ entry.2 ∈ block.transactions := by
  induction node with
  | genesis block => cases member
  | child parent block ih =>
    rcases List.mem_append.mp member with below | here
    · obtain ⟨onChain, isBlock⟩ := ih below
      exact ⟨.tail _ onChain, isBlock⟩
    · obtain ⟨tx, listed, rfl⟩ := List.mem_map.mp here
      exact ⟨.head _, parent, block, rfl, listed⟩

theorem fits_of_checkTransactionOutputs
    (checked : checkTransactionOutputs inference tx = .ok ()) : tx.Fits ∧ tx.txIn ≠ [] := by
  simp only [checkTransactionOutputs, bind_eq_ok, require_eq_ok] at checked
  obtain ⟨_, inputs, _, _, _, size, _⟩ := checked
  rw [getTransactionVsize, calcVsize, witnessScaleFactor, maxBlockVsize] at size
  refine ⟨MsgTx.fits_of_serializeSize (by omega : tx.serializeSize ≤ 5000000) (by decide), ?_⟩
  intro empty
  exact inputs (List.length_eq_zero_iff.mpr empty)

theorem AcceptedChain.fits_of_mem
    (accepted : AcceptedChain (rules.withInference inference) node)
    (onChain : BlockNode.child parent block ∈ node.ancestors)
    (member : tx ∈ block.transactions) : tx.Fits ∧ tx.txIn ≠ [] := by
  obtain ⟨⟨_, _, sane⟩, _⟩ := accepted.blocks parent block onChain
  simp only [checkBlockSanity, checkTransactionSanity, bind_eq_ok, forM_eq_ok] at sane
  obtain ⟨_, _, _, _, _, _, _, _, _, _, _, _, _, _, _, transactions, _⟩ := sane
  obtain ⟨_, outputs, _⟩ := transactions _ member
  exact fits_of_checkTransactionOutputs outputs

theorem AcceptedChain.fits (accepted : AcceptedChain (rules.withInference inference) node)
    (member : entry ∈ chainTxs node) : entry.2.Fits ∧ entry.2.txIn ≠ [] := by
  obtain ⟨onChain, parent, block, isBlock, listed⟩ := exists_block_of_mem_chainTxs member
  rw [isBlock] at onChain
  exact accepted.fits_of_mem onChain listed

theorem previousOutPoints_stripped (tx : MsgTx) : tx.stripped.txIn.map TxIn.previousOutPoint =
      tx.txIn.map TxIn.previousOutPoint := by
  rw [MsgTx.stripped, List.map_map]
  rfl

theorem isCoinBaseTx_stripped (tx : MsgTx) : isCoinBaseTx tx.stripped = isCoinBaseTx tx := by
  obtain ⟨version, txIn, txOut, lockTime⟩ := tx
  match txIn with
  | [] => rfl
  | [_] => rfl
  | _ :: _ :: _ => rfl

theorem extractCoinbaseHeight_stripped (tx : MsgTx) :
    extractCoinbaseHeight tx.stripped = extractCoinbaseHeight tx := by
  obtain ⟨version, txIn, txOut, lockTime⟩ := tx
  cases txIn with
  | nil => rfl
  | cons txIn rest => rfl

variable (accepted : AcceptedChain (rules.withInference inference) node)
include accepted

variable (context : InContext (rules.withInference inference) node)
include context

theorem AcceptedChain.extractCoinbaseHeight
    (member : entry ∈ chainTxs node) (isCoinBase : isCoinBaseTx entry.2 = true) :
    BlockChain.extractCoinbaseHeight entry.2 = .ok entry.1.height := by
  obtain ⟨onChain, parent, block, isBlock, listed⟩ := exists_block_of_mem_chainTxs member
  rw [isBlock] at onChain ⊢
  obtain ⟨⟨_, _, sane⟩, _⟩ := accepted.blocks parent block onChain
  obtain ⟨coinbaseTx, others, transactions, _, notCoinBase⟩ :=
    (sane_of_checkBlockSanity sane).coinbaseFirst
  have isFirst : entry.2 = coinbaseTx := by
    rw [transactions] at listed
    rcases List.mem_cons.mp listed with first | later
    · exact first
    · rw [notCoinBase _ later] at isCoinBase
      cases isCoinBase
  rw [isFirst]
  exact (checkSerializedHeight_ne (context.checkSerializedHeight onChain transactions)).1

variable (messages : Set.InjOn rules.sha256d (txMessages node))
include messages

/-- Two transactions of different blocks with one identifier spend one output: they
are no coinbases, since those carry the heights of their blocks. -/
theorem AcceptedChain.share_input
    (firstMember : first ∈ chainTxs node) (secondMember : second ∈ chainTxs node)
    (blocks : first.1 ≠ second.1) (hashes : (rules.withInference inference).txHash first.2 =
      (rules.withInference inference).txHash second.2) :
    ∃ outPoint ∈ (txTransfer (rules.withInference inference).toTxRules
        first.1.height first.2).spent,
      outPoint ∈ (txTransfer (rules.withInference inference).toTxRules
        second.1.height second.2).spent := by
  obtain ⟨firstFits, inputs⟩ := accepted.fits firstMember
  have stripped := stripped_eq_of_serializeNoWitness_eq firstFits (accepted.fits secondMember).1
    (messages ⟨first, firstMember, rfl⟩ ⟨second, secondMember, rfl⟩ hashes)
  cases isCoinBase : isCoinBaseTx first.2 with
  | false =>
    obtain ⟨txIn, rest, isHead⟩ := List.exists_cons_of_ne_nil inputs
    have spends : txIn.previousOutPoint ∈ first.2.txIn.map TxIn.previousOutPoint := by
      rw [isHead]
      exact .head _
    refine ⟨txIn.previousOutPoint, ?_, ?_⟩
    · rw [txTransfer, isCoinBase]
      exact spends
    · rw [← isCoinBaseTx_stripped, stripped, isCoinBaseTx_stripped] at isCoinBase
      rw [← previousOutPoints_stripped, stripped, previousOutPoints_stripped]
        at spends
      rw [txTransfer, isCoinBase]
      exact spends
  | true =>
    have firstHeight := accepted.extractCoinbaseHeight context firstMember isCoinBase
    rw [← isCoinBaseTx_stripped, stripped, isCoinBaseTx_stripped] at isCoinBase
    have secondHeight := accepted.extractCoinbaseHeight context secondMember isCoinBase
    rw [← extractCoinbaseHeight_stripped, stripped, extractCoinbaseHeight_stripped,
      secondHeight] at firstHeight
    exact absurd (accepted.eq_of_height_eq context
      (exists_block_of_mem_chainTxs firstMember).1
      (exists_block_of_mem_chainTxs secondMember).1 (Except.ok.inj firstHeight).symm) blocks

theorem AcceptedChain.twins :
    (chainHistory (rules.withInference inference) node).Pairwise
      fun first second => first.1 = second.1 →
        ∃ outPoint ∈ first.2.spent, outPoint ∈ second.2.spent := by
  induction node with
  | genesis block => exact List.Pairwise.nil
  | child parent block ih =>
    have fewer : txMessages parent ⊆ txMessages (.child parent block) := by
      rintro message ⟨entry, member, rfl⟩
      exact ⟨entry, List.mem_append_left _ member, rfl⟩
    have below := ih accepted.below context.below (messages.mono fewer)
    rw [chainHistory, chainTxs, List.map_append, List.pairwise_append]
    refine ⟨below, ?_, ?_⟩
    · obtain ⟨_, _, sane⟩ := accepted.sane
      have distinct := (sane_of_checkBlockSanity sane).hashes
      rw [List.Nodup, List.pairwise_map] at distinct
      rw [List.map_map, List.pairwise_map]
      exact distinct.imp fun different same => absurd same different
    · intro first firstMember second secondMember hashes
      obtain ⟨lower, lowerMember, rfl⟩ := List.mem_map.mp firstMember
      obtain ⟨upper, upperMember, rfl⟩ := List.mem_map.mp secondMember
      obtain ⟨entry, _, rfl⟩ := List.mem_map.mp upperMember
      have lowerBlock := (exists_block_of_mem_chainTxs lowerMember).1
      exact accepted.share_input context messages
        (List.mem_append_left _ lowerMember) (List.mem_append_right _ upperMember)
        (fun same => BlockNode.child_not_mem_ancestors (same ▸ lowerBlock)) hashes

/-- The transfers of an accepted chain are a history: an output tells the
identifier of the transaction that it comes from. -/
theorem AcceptedChain.history (inOrder : ChainInOrder (rules.withInference inference) node) :
    History OutPoint.hash (chainHistory (rules.withInference inference) node) := by
  refine ⟨accepted.connectsAll inOrder, ?_, accepted.twins context messages⟩
  intro entry member outPoint created
  obtain ⟨⟨block, tx⟩, _, rfl⟩ := List.mem_map.mp member
  exact (hash_of_mem_created created).1

end History

end ModelOS.BlockChain
