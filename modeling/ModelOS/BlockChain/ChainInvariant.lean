import ModelOS.BlockChain.Chain

namespace ModelOS.BlockChain

open Data Wire ZkPow

/-! In every reachable state the utxo cache is the ledger of the best chain, the
journals undo its blocks, and a block marked valid has been validated. -/

namespace BlockNode

def root : BlockNode → MsgBlock
  | genesis block => block
  | child parent _ => parent.root

def parent? : BlockNode → Option BlockNode
  | genesis _ => none
  | child parent _ => some parent

variable {node fork : BlockNode}

theorem self_mem_ancestors : node ∈ node.ancestors := by
  cases node with
  | genesis block => exact List.mem_singleton_self _
  | child parent block => exact .head _

theorem ancestors_ne_nil : node.ancestors ≠ [] :=
  List.ne_nil_of_mem self_mem_ancestors

theorem genesis_mem_ancestors : genesis node.root ∈ node.ancestors := by
  induction node with
  | genesis block => exact List.mem_singleton_self _
  | child parent block ih => exact .tail _ ih

theorem length_ancestors_le (member : fork ∈ node.ancestors) :
    fork.ancestors.length ≤ node.ancestors.length := by
  induction node with
  | genesis block =>
    rw [List.mem_singleton.mp member]
  | child parent block ih =>
    rcases List.mem_cons.mp member with rfl | below
    · exact Nat.le_refl _
    · exact Nat.le_succ_of_le (ih below)

variable {parent : BlockNode} {block : MsgBlock}

theorem child_not_mem_ancestors : child parent block ∉ parent.ancestors := by
  intro member
  exact Nat.not_succ_le_self _ (length_ancestors_le member)

theorem ancestors_eq_nodesAbove (member : fork ∈ node.ancestors) :
    node.ancestors = nodesAbove (some fork) node ++ fork.ancestors := by
  induction node with
  | genesis block =>
    rw [List.mem_singleton.mp member]
    simp [nodesAbove, ancestors]
  | child parent block ih =>
    rcases List.mem_cons.mp member with rfl | below
    · simp [nodesAbove, ancestors]
    · have distinct : child parent block ≠ fork := by
        rintro rfl
        exact child_not_mem_ancestors below
      rw [nodesAbove, ancestors, List.takeWhile_cons_of_pos (by simpa using distinct),
        List.cons_append, ← nodesAbove, ← ih below]

theorem eq_of_ancestors_eq_cons
    (ancestors : node.ancestors = first :: rest) : first = node := by
  cases node with
  | genesis block => exact (List.cons.inj ancestors).1.symm
  | child parent block => exact (List.cons.inj ancestors).1.symm

end BlockNode

section Ledger

variable (rules : ChainRules)

def transfersOf (node : BlockNode) : List (Transfer OutPoint SpentTxOut) :=
  blockTransfers rules.toTxRules node.height node.block.transactions

/-- The unspent outputs of the chain that ends in a node. -/
def utxosOf : BlockNode → Ledger OutPoint SpentTxOut
  | .genesis _ => fun _ => none
  | .child parent block =>
    (utxosOf parent).applyAll (transfersOf rules (.child parent block))

/-- The block spends outputs that are unspent below it and overwrites none. -/
def Connectable (parent : BlockNode) (block : MsgBlock) : Prop :=
  Ledger.ConnectsAll (transfersOf rules (.child parent block)) (utxosOf rules parent)

/-- The whole of `checkBlockContext` passes on top of the parent, with the latest
checkpoint that the chain had reached. -/
def PassesContext (parent : BlockNode) (block : MsgBlock) (checkpoint : Option BlockNode) : Prop :=
  checkBlockContext rules block parent .none (.ok checkpoint) = .ok ()

/-- The whole of `checkConnectBlock` passes on a view of the parent's utxo set. -/
def PassesConnect (parent : BlockNode) (block : MsgBlock) : Prop :=
  ∃ view after, view.bestHash = parent.hash rules.sha256d ∧
    view.entries.unspent = utxosOf rules parent ∧
    checkConnectBlock rules (.child parent block) view = .ok after

/-- A block that passes spends in order: none of its transactions spends an output of itself or
of a later one.  `checkConnectBlock` does not look at that, and the cache cannot connect a block
that does. -/
def SpendsInOrder (block : MsgBlock) : Prop :=
  ∀ parent, block.msgHeader.blockHeader.prevBlock = parent.hash rules.sha256d →
    PassesConnect rules parent block → Ledger.InOrder (transfersOf rules (.child parent block))

/-- Heights do not matter for the order. -/
theorem inOrder_blockTransfers {txRules : TxRules} {blockHeight other : Int32}
    (inOrder : Ledger.InOrder (blockTransfers txRules blockHeight transactions)) :
    Ledger.InOrder (blockTransfers txRules other transactions) := by
  have created : ∀ transactions height,
      Ledger.createdKeys (blockTransfers txRules height transactions) =
        transactions.flatMap fun tx => (spendableOutputs txRules tx).map Prod.fst := by
    intro transactions height
    simp only [Ledger.createdKeys, blockTransfers, List.flatMap_map, txTransfer, List.map_map]
    rfl
  induction transactions with
  | nil => trivial
  | cons tx rest ih =>
    rw [blockTransfers_cons, Ledger.InOrder, ← blockTransfers_cons, created] at inOrder ⊢
    exact ⟨inOrder.1, ih inOrder.2⟩

theorem spendsInOrder_of_inOrder {rules : ChainRules}
    (inOrder : Ledger.InOrder (transfersOf rules (.child parent block))) :
    SpendsInOrder rules block :=
  fun _ _ _ => inOrder_blockTransfers inOrder

end Ledger

def IndexEntry.Validated (rules : ChainRules) (entry : IndexEntry) : Prop :=
  ∀ parent block, entry.node = .child parent block → Connectable rules parent block ∧
      (entry.fastAdded = false → PassesConnect rules parent block)

/-- What holds of an indexed block other than the genesis block. -/
structure ChildInvariant (rules : ChainRules) (chain : Chain) (entry : IndexEntry)
    (parent : BlockNode) (block : MsgBlock) : Prop where
  linked : block.msgHeader.blockHeader.prevBlock = parent.hash rules.sha256d
  parentIndexed : lookupNode chain (parent.hash rules.sha256d) = some parent
  sane : SaneTransactions rules block.transactions
  inOrder : SpendsInOrder rules block
  context : entry.fastAdded = false → PassesContext rules parent block entry.checkpoint

structure IndexInvariant (rules : ChainRules) (chain : Chain) : Prop where
  hash : ∀ hash entry, chain.index hash = some entry → entry.node.hash rules.sha256d = hash
  root : ∀ hash entry, chain.index hash = some entry → entry.node.root = chain.tip.root
  children : ∀ hash entry parent block, chain.index hash = some entry →
    entry.node = .child parent block → ChildInvariant rules chain entry parent block
  validated : ∀ hash entry, chain.index hash = some entry →
    entry.status.valid = true → entry.Validated rules
  tip : lookupNode chain (chain.tip.hash rules.sha256d) = some chain.tip

structure ChainInvariant (rules : ChainRules) (chain : Chain) : Prop
    extends IndexInvariant rules chain where
  bestValid : ∀ parent block, BlockNode.child parent block ∈ chain.tip.ancestors →
    (nodeStatus rules chain (.child parent block)).valid = true
  utxos : chain.utxoCache.unspent = utxosOf rules chain.tip
  journal : ∀ parent block, BlockNode.child parent block ∈ chain.tip.ancestors →
    chain.spendJournal ((BlockNode.child parent block).hash rules.sha256d) =
      some ((utxosOf rules parent).coinsAll (transfersOf rules (.child parent block)))

/-- The index knows the same nodes; their statuses may differ. -/
def SameNodes (before after : Chain) : Prop :=
  ∀ hash, lookupNode after hash = lookupNode before hash

/-- The index knows the same nodes, one hash apart. -/
def SameNodesBut (hash : Hash) (before after : Chain) : Prop :=
  ∀ other, other ≠ hash → lookupNode after other = lookupNode before other

variable {rules : ChainRules} {chain after : Chain} {node : BlockNode}

theorem connectable_of_passes (sane : SaneTransactions rules block.transactions)
    (inOrder : Ledger.InOrder (transfersOf rules (.child parent block)))
    (passes : PassesConnect rules parent block) : Connectable rules parent block := by
  obtain ⟨view, after, _, utxos, checked⟩ := passes
  rw [Connectable, ← utxos]
  exact connects_of_checkConnectBlock sane inOrder checked

theorem ChildInvariant.connectable (child : ChildInvariant rules chain entry parent block)
    (passes : PassesConnect rules parent block) : Connectable rules parent block :=
  connectable_of_passes child.sane (child.inOrder parent child.linked passes) passes

theorem SameNodes.refl : SameNodes chain chain :=
  fun _ => rfl

theorem SameNodes.trans (first : SameNodes chain middle)
    (second : SameNodes middle after) : SameNodes chain after :=
  fun hash => (second hash).trans (first hash)

theorem exists_entry_of_lookupNode {hash : Hash} (found : lookupNode chain hash = some node) :
    ∃ entry, chain.index hash = some entry ∧ entry.node = node :=
  Option.map_eq_some_iff.mp found

namespace IndexInvariant

theorem ancestors_indexed (invariant : IndexInvariant rules chain)
    (indexed : lookupNode chain (node.hash rules.sha256d) = some node)
    (member : ancestor ∈ node.ancestors) :
    lookupNode chain (ancestor.hash rules.sha256d) = some ancestor := by
  induction node with
  | genesis block =>
    rw [List.mem_singleton.mp member]
    exact indexed
  | child parent block ih =>
    rcases List.mem_cons.mp member with rfl | below
    · exact indexed
    · obtain ⟨entry, found, isNode⟩ := exists_entry_of_lookupNode indexed
      exact ih (invariant.children _ entry parent block found isNode).parentIndexed below

theorem sane (invariant : IndexInvariant rules chain)
    (indexed : lookupNode chain ((BlockNode.child parent block).hash rules.sha256d) =
      some (.child parent block)) :
    block.msgHeader.blockHeader.prevBlock = parent.hash rules.sha256d ∧
      SaneTransactions rules block.transactions := by
  obtain ⟨entry, found, isNode⟩ := exists_entry_of_lookupNode indexed
  have child := invariant.children _ entry parent block found isNode
  exact ⟨child.linked, child.sane⟩

theorem connectable (invariant : IndexInvariant rules chain)
    (indexed : lookupNode chain ((BlockNode.child parent block).hash rules.sha256d) =
      some (.child parent block))
    (valid : (nodeStatus rules chain (.child parent block)).valid = true) :
    Connectable rules parent block := by
  obtain ⟨entry, found, isNode⟩ := exists_entry_of_lookupNode indexed
  simp only [nodeStatus, found, Option.map_some, Option.getD_some] at valid
  exact (invariant.validated _ entry found valid parent block isNode).1

end IndexInvariant

theorem lookupNode_setStatusFlags (flags : BlockStatus → BlockStatus) :
    SameNodes chain (setStatusFlags rules chain node flags) := by
  intro hash
  simp only [lookupNode, setStatusFlags]
  rcases eq_or_ne hash (node.hash rules.sha256d) with rfl | distinct
  · rw [Function.update_self, Option.map_map]
    rfl
  · rw [Function.update_of_ne distinct]

theorem index_setStatusFlags {hash : Hash}
    (found : (setStatusFlags rules chain node flags).index hash = some entry) :
    ∃ before, chain.index hash = some before ∧ entry = { before with status := entry.status } ∧
      (entry.status = before.status ∨
        hash = node.hash rules.sha256d ∧ entry.status = flags before.status) := by
  simp only [setStatusFlags] at found
  rcases eq_or_ne hash (node.hash rules.sha256d) with rfl | distinct
  · rw [Function.update_self, Option.map_eq_some_iff] at found
    obtain ⟨before, found, rfl⟩ := found
    exact ⟨before, found, rfl, .inr ⟨rfl, rfl⟩⟩
  · rw [Function.update_of_ne distinct] at found
    exact ⟨entry, found, rfl, .inl rfl⟩

theorem nodeStatus_setStatusFlags_cases {flags : BlockStatus → BlockStatus} {other : BlockNode} :
    nodeStatus rules (setStatusFlags rules chain node flags) other = nodeStatus rules chain other ∨
      nodeStatus rules (setStatusFlags rules chain node flags) other =
        flags (nodeStatus rules chain other) := by
  simp only [nodeStatus, setStatusFlags]
  rcases eq_or_ne (other.hash rules.sha256d) (node.hash rules.sha256d) with same | distinct
  · rw [same, Function.update_self]
    cases chain.index (node.hash rules.sha256d) with
    | none => exact .inl rfl
    | some entry => exact .inr rfl
  · exact .inl (by rw [Function.update_of_ne distinct])

theorem nodeStatus_setStatusFlags_valid
    (keeps : ∀ status : BlockStatus, status.valid = true → (flags status).valid = true)
    (valid : (nodeStatus rules chain other).valid = true) :
    (nodeStatus rules (setStatusFlags rules chain node flags) other).valid = true := by
  rcases @nodeStatus_setStatusFlags_cases rules chain node flags other with same | changed
  · rw [same, valid]
  · rw [changed, keeps _ valid]

theorem nodeStatus_setStatusFlags_self
    (indexed : lookupNode chain (node.hash rules.sha256d) = some node)
    (flags : BlockStatus → BlockStatus) :
    nodeStatus rules (setStatusFlags rules chain node flags) node =
      flags (nodeStatus rules chain node) := by
  obtain ⟨entry, found, _⟩ := exists_entry_of_lookupNode indexed
  simp [nodeStatus, setStatusFlags, found]

/-- Statuses may change as long as a block that becomes valid has been validated and
the best chain stays valid. -/
theorem ChainInvariant.of_statuses (invariant : ChainInvariant rules chain)
    (rest : after = { chain with index := after.index }) (nodes : SameNodes chain after)
    (entries : ∀ hash entry, after.index hash = some entry →
      ∃ before, chain.index hash = some before ∧
        entry = { before with status := entry.status } ∧
        (entry.status.valid = true →
          before.status.valid = true ∨ before.Validated rules))
    (best : ∀ parent block, BlockNode.child parent block ∈ chain.tip.ancestors →
      (nodeStatus rules after (.child parent block)).valid = true) :
    ChainInvariant rules after := by
  have tip : after.tip = chain.tip := by rw [rest]
  refine ⟨⟨?_, ?_, ?_, ?_, ?_⟩, ?_, ?_, ?_⟩
  · intro hash entry found
    obtain ⟨before, present, same, _⟩ := entries hash entry found
    rw [same]
    exact invariant.hash hash before present
  · intro hash entry found
    obtain ⟨before, present, same, _⟩ := entries hash entry found
    rw [same, tip]
    exact invariant.root hash before present
  · intro hash entry parent block found isNode
    obtain ⟨before, present, same, _⟩ := entries hash entry found
    rw [same] at isNode ⊢
    have child := invariant.children hash before parent block present isNode
    exact { child with parentIndexed := (nodes _).trans child.parentIndexed }
  · intro hash entry found valid
    obtain ⟨before, present, same, justified⟩ := entries hash entry found
    have validated : before.Validated rules :=
      (justified valid).elim (invariant.validated hash before present) id
    rw [same]
    exact validated
  · rw [tip]
    exact (nodes _).trans invariant.tip
  · rw [tip]
    exact best
  · rw [rest]
    exact invariant.utxos
  · rw [rest]
    exact invariant.journal

theorem ChainInvariant.setStatusFlags (invariant : ChainInvariant rules chain)
    {flags : BlockStatus → BlockStatus}
    (keeps : ∀ status : BlockStatus, status.valid = true → (flags status).valid = true)
    (justified : ∀ entry, chain.index (node.hash rules.sha256d) = some entry →
      (flags entry.status).valid = true → entry.status.valid = true ∨ entry.Validated rules) :
    ChainInvariant rules (setStatusFlags rules chain node flags) := by
  refine invariant.of_statuses rfl (lookupNode_setStatusFlags flags) ?_ ?_
  · intro hash entry found
    obtain ⟨before, present, same, status⟩ := index_setStatusFlags found
    refine ⟨before, present, same, fun valid => ?_⟩
    rcases status with unchanged | ⟨rfl, changed⟩
    · exact .inl (unchanged ▸ valid)
    · exact justified before present (changed ▸ valid)
  · intro parent block member
    exact nodeStatus_setStatusFlags_valid keeps (invariant.bestValid parent block member)

/-- Only statuses changed, and no block lost its validity. -/
structure OnlyStatuses (rules : ChainRules) (before after : Chain) : Prop where
  nodes : SameNodes before after
  tip : after.tip = before.tip
  valid : ∀ node, (nodeStatus rules before node).valid = true →
    (nodeStatus rules after node).valid = true

theorem OnlyStatuses.refl : OnlyStatuses rules chain chain :=
  ⟨SameNodes.refl, rfl, fun _ valid => valid⟩

theorem OnlyStatuses.trans (first : OnlyStatuses rules chain middle)
    (second : OnlyStatuses rules middle after) : OnlyStatuses rules chain after :=
  ⟨first.nodes.trans second.nodes, second.tip.trans first.tip,
    fun node valid => second.valid node (first.valid node valid)⟩

theorem onlyStatuses_setStatusFlags {flags : BlockStatus → BlockStatus}
    (keeps : ∀ status : BlockStatus, status.valid = true → (flags status).valid = true) :
    OnlyStatuses rules chain (setStatusFlags rules chain node flags) :=
  ⟨lookupNode_setStatusFlags flags, rfl, fun _ valid => nodeStatus_setStatusFlags_valid keeps valid⟩

theorem ChainInvariant.setInvalid (invariant : ChainInvariant rules chain)
    {flags : BlockStatus → BlockStatus} (same : ∀ status, (flags status).valid = status.valid) :
    ChainInvariant rules (BlockChain.setStatusFlags rules chain node flags) ∧
      OnlyStatuses rules chain (BlockChain.setStatusFlags rules chain node flags) := by
  have keeps : ∀ status : BlockStatus, status.valid = true → (flags status).valid = true := by
    intro status valid
    rw [same, valid]
  refine ⟨invariant.setStatusFlags keeps ?_, onlyStatuses_setStatusFlags keeps⟩
  intro entry _ valid
  exact .inl ((same entry.status).symm.trans valid)

theorem ChainInvariant.setAllInvalid (invariant : ChainInvariant rules chain)
    (nodes : List BlockNode) :
    let after := nodes.foldl (fun chain node =>
      BlockChain.setStatusFlags rules chain node statusInvalidAncestor) chain
    ChainInvariant rules after ∧ OnlyStatuses rules chain after := by
  induction nodes generalizing chain with
  | nil => exact ⟨invariant, .refl⟩
  | cons node rest ih =>
    obtain ⟨holds, marked⟩ := @ChainInvariant.setInvalid _ _ node invariant
      statusInvalidAncestor fun _ => rfl
    obtain ⟨holds, others⟩ := ih holds
    exact ⟨holds, marked.trans others⟩

theorem ChainInvariant.setValid (invariant : ChainInvariant rules chain)
    (found : chain.index ((BlockNode.child parent block).hash rules.sha256d) = some entry)
    (isNode : entry.node = .child parent block) (connectable : Connectable rules parent block)
    (passes : entry.fastAdded = false → PassesConnect rules parent block) : ChainInvariant rules
      (BlockChain.setStatusFlags rules chain (.child parent block) statusValid) := by
  refine invariant.setStatusFlags (fun _ _ => rfl) ?_
  intro other foundOther _
  obtain rfl := Option.some.inj (found.symm.trans foundOther)
  refine .inr fun parent' block' isNode' => ?_
  obtain ⟨rfl, rfl⟩ := BlockNode.child.inj (isNode.symm.trans isNode')
  exact ⟨connectable, passes⟩

section Tip

variable {parent : BlockNode} {block : MsgBlock} {entries : UtxoEntries}

def extendTip (rules : ChainRules) (chain : Chain) (block : MsgBlock)
    (entries : UtxoEntries) : Chain :=
  { chain with
    tip := .child chain.tip block
    utxoCache := entries
    spendJournal := Function.update chain.spendJournal
      ((BlockNode.child chain.tip block).hash rules.sha256d)
      (some ((utxosOf rules chain.tip).coinsAll
        (transfersOf rules (.child chain.tip block)))) }

def retractTip (rules : ChainRules) (chain : Chain) (parent : BlockNode)
    (entries : UtxoEntries) : Chain :=
  { chain with
    tip := parent
    utxoCache := entries.flush
    spendJournal := Function.update chain.spendJournal
      (chain.tip.hash rules.sha256d) none }

theorem connectTip_eq (utxos : chain.utxoCache.unspent = utxosOf rules chain.tip)
    (linked : block.msgHeader.blockHeader.prevBlock = chain.tip.hash rules.sha256d)
    (sane : SaneTransactions rules block.transactions)
    (connectable : Connectable rules chain.tip block) : ∃ entries, UtxoEntries.unspent entries =
        utxosOf rules (.child chain.tip block) ∧ connectTip rules chain (.child chain.tip block) =
        (extendTip rules chain block entries, .ok ()) := by
  obtain ⟨coinbase, others, transactions, isCoinBase, notCoinBase⟩ := sane.coinbaseFirst
  have connects := connectable
  rw [Connectable, ← utxos] at connects
  have stxos := @connectTransactions_of_connects _ .cache _ _ _ connects
  cases connected : connectTransactions rules.toTxRules .cache chain.utxoCache
      (BlockNode.child chain.tip block).height
      (BlockNode.child chain.tip block).block.transactions with
  | mk entries result =>
    rw [connected] at stxos
    have result : result = _ := stxos
    rw [result] at connected
    have unspent := unspent_connectTransactions connected
    have count : (chain.utxoCache.unspent.coinsAll
        (transfersOf rules (.child chain.tip block))).length =
        countSpentOutputs (BlockNode.child chain.tip block).block.transactions := by
      rw [connects.length_coinsAll, transfersOf, BlockNode.block, transactions,
        sum_spent_blockTransfers isCoinBase notCoinBase]
    have links : (BlockNode.child chain.tip block).header.prevBlock =
        chain.tip.hash rules.sha256d := linked
    refine ⟨entries, ?_, ?_⟩
    · rw [unspent, utxos]
      rfl
    · rw [connectTip, connected]
      change connectBlock rules _ _ (chain.utxoCache.unspent.coinsAll
        (transfersOf rules (.child chain.tip block))) = _
      rw [connectBlock, if_neg (not_not.mpr links), if_neg (not_not.mpr count), utxos]
      rfl

theorem ChainInvariant.extendTip (invariant : ChainInvariant rules chain)
    (utxos : entries.unspent = utxosOf rules (.child chain.tip block))
    (indexed : lookupNode chain ((BlockNode.child chain.tip block).hash rules.sha256d) =
        some (.child chain.tip block))
    (valid : (nodeStatus rules chain (.child chain.tip block)).valid = true) :
    ChainInvariant rules (extendTip rules chain block entries) where
  hash := invariant.hash
  root := invariant.root
  children := by
    intro hash entry parent block found isNode
    have child := invariant.children hash entry parent block found isNode
    exact { child with parentIndexed := child.parentIndexed }
  validated := invariant.validated
  tip := indexed
  bestValid := by
    intro parent block member
    rcases List.mem_cons.mp member with same | below
    · rw [same]
      exact valid
    · exact invariant.bestValid parent block below
  utxos := utxos
  journal := by
    intro parent below member
    rcases List.mem_cons.mp member with same | earlier
    · obtain ⟨rfl, rfl⟩ := BlockNode.child.inj same
      exact Function.update_self ..
    · have known := invariant.ancestors_indexed invariant.tip earlier
      refine (Function.update_of_ne ?_ _ _).trans (invariant.journal parent below earlier)
      intro same
      rw [same, indexed] at known
      exact BlockNode.child_not_mem_ancestors (Option.some.inj known ▸ earlier)

theorem disconnect_view {view : UtxoViewpoint}
    (linked : block.msgHeader.blockHeader.prevBlock = parent.hash rules.sha256d)
    (sane : SaneTransactions rules block.transactions)
    (connectable : Connectable rules parent block)
    (utxos : view.entries.unspent = utxosOf rules (.child parent block)) :
    ∃ below, disconnectTransactions rules.toTxRules
        ⟨fetchInputUtxos rules.toTxRules view.entries block.transactions
          (BlockNode.child parent block).height, view.bestHash⟩
        block (BlockNode.child parent block).height
        ((utxosOf rules parent).coinsAll (transfersOf rules (.child parent block))) = .ok below ∧
      below.entries.unspent = utxosOf rules parent ∧
      below.bestHash = parent.hash rules.sha256d := by
  obtain ⟨coinbase, others, transactions, isCoinBase, notCoinBase⟩ := sane.coinbaseFirst
  obtain ⟨below, undone, ledger, best⟩ := disconnectTransactions_of_connects
    transactions isCoinBase notCoinBase connectable utxos
  exact ⟨below, undone, ledger, best.trans linked⟩

theorem ChainInvariant.retractTip (invariant : ChainInvariant rules chain)
    (tip : chain.tip = .child parent block) (utxos : entries.unspent = utxosOf rules parent) :
    ChainInvariant rules (retractTip rules chain parent entries) where
  hash := invariant.hash
  root := by
    intro hash entry found
    rw [invariant.root hash entry found, tip]
    rfl
  children := by
    intro hash entry parent block found isNode
    have child := invariant.children hash entry parent block found isNode
    exact { child with parentIndexed := child.parentIndexed }
  validated := invariant.validated
  tip := invariant.ancestors_indexed invariant.tip (by
    rw [tip]
    exact .tail _ BlockNode.self_mem_ancestors)
  bestValid := by
    intro grandparent below member
    exact invariant.bestValid grandparent below (by
      rw [tip]
      exact .tail _ member)
  utxos := (unspent_flush entries).trans utxos
  journal := by
    intro grandparent below member
    have earlier : BlockNode.child grandparent below ∈ chain.tip.ancestors := by
      rw [tip]
      exact .tail _ member
    have known := invariant.ancestors_indexed invariant.tip earlier
    refine (Function.update_of_ne ?_ _ _).trans (invariant.journal grandparent below earlier)
    intro same
    rw [same, invariant.tip, tip] at known
    exact BlockNode.child_not_mem_ancestors (Option.some.inj known ▸ member)

theorem ChainInvariant.best (invariant : ChainInvariant rules chain)
    (member : BlockNode.child parent block ∈ chain.tip.ancestors) :
    block.msgHeader.blockHeader.prevBlock = parent.hash rules.sha256d ∧
      SaneTransactions rules block.transactions ∧ Connectable rules parent block ∧
      fetchSpendJournalEntry rules chain (.child parent block) =
        .ok ((utxosOf rules parent).coinsAll
          (transfersOf rules (.child parent block))) := by
  have indexed := invariant.ancestors_indexed invariant.tip member
  obtain ⟨linked, sane⟩ := invariant.sane indexed
  refine ⟨linked, sane, invariant.connectable indexed (invariant.bestValid parent block member), ?_⟩
  rw [fetchSpendJournalEntry, invariant.journal parent block member]

end Tip

end ModelOS.BlockChain
