import ModelOS.BlockChain.Reorganize
import ModelOS.Data.LedgerHistory

namespace ModelOS.BlockChain

open Data Wire

structure AcceptedChain (rules : ChainRules) (node : BlockNode) : Prop where
  genesis : (BlockNode.genesis node.root).hash rules.sha256d = rules.genesisHash
  blocks : ∀ parent block, BlockNode.child parent block ∈ node.ancestors →
    (∃ adjustedTime flags, checkBlockSanity rules block adjustedTime flags = .ok ()) ∧
    PassesConnect rules parent block

/-- No transaction of the chain spends an output of itself or of a later one of its block. -/
def ChainInOrder (rules : ChainRules) (node : BlockNode) : Prop :=
  ∀ parent block, BlockNode.child parent block ∈ node.ancestors →
    Ledger.InOrder (transfersOf rules (.child parent block))

/-- The transactions of a block, each with the ledger it is connected to. -/
def withLedgers (rules : TxRules) (blockHeight : Int32) : List MsgTx → Ledger OutPoint SpentTxOut →
      List (Ledger OutPoint SpentTxOut × MsgTx)
  | [], _ => []
  | tx :: rest, ledger =>
    (ledger, tx) :: withLedgers rules blockHeight rest
      (ledger.apply (txTransfer rules blockHeight tx))

/-- All transactions of a chain but those of its genesis block, with the block
each is in and the ledger it is checked against. -/
def chainTransactions (rules : ChainRules) :
    BlockNode → List (BlockNode × Ledger OutPoint SpentTxOut × MsgTx)
  | .genesis _ => []
  | .child parent block =>
    chainTransactions rules parent ++
      (withLedgers rules.toTxRules (BlockNode.child parent block).height block.transactions
        (fetchedLedger rules.toTxRules (utxosOf rules parent) block.transactions
          (BlockNode.child parent block).height)).map
            fun entry => (.child parent block, entry)

def chainTxs : BlockNode → List (BlockNode × MsgTx)
  | .genesis _ => []
  | .child parent block =>
    chainTxs parent ++ block.transactions.map fun tx => (.child parent block, tx)

variable {rules : ChainRules} {parent node : BlockNode} {block : MsgBlock}

namespace AcceptedChain

section

variable (accepted : AcceptedChain rules (.child parent block))
include accepted

theorem below : AcceptedChain rules parent :=
  ⟨accepted.genesis, fun lower block member =>
    accepted.blocks lower block (.tail _ member)⟩

theorem sane : ∃ adjustedTime flags, checkBlockSanity rules block adjustedTime flags = .ok () :=
  (accepted.blocks parent block (.head _)).1

theorem passes : PassesConnect rules parent block :=
  (accepted.blocks parent block (.head _)).2

theorem connects (inOrder : Ledger.InOrder (transfersOf rules (.child parent block))) :
    Ledger.ConnectsAll (transfersOf rules (.child parent block)) (utxosOf rules parent) := by
  obtain ⟨_, _, sane⟩ := accepted.sane
  exact connectable_of_passes (sane_of_checkBlockSanity sane) inOrder accepted.passes

end

theorem root (genesis : (BlockNode.genesis block).hash rules.sha256d = rules.genesisHash) :
    AcceptedChain rules (.genesis block) :=
  ⟨genesis, fun _ _ member => by cases List.mem_singleton.mp member⟩

variable {adjustedTime : Nat}

theorem child (accepted : AcceptedChain rules parent)
    (sane : checkBlockSanity rules block adjustedTime flags = .ok ())
    (passes : PassesConnect rules parent block) : AcceptedChain rules (.child parent block) := by
  refine ⟨accepted.genesis, ?_⟩
  intro lower above member
  rcases List.mem_cons.mp member with here | below
  · obtain ⟨rfl, rfl⟩ := BlockNode.child.inj here
    exact ⟨⟨_, _, sane⟩, passes⟩
  · exact accepted.blocks lower above below

end AcceptedChain

structure ChainView (rules : ChainRules) (node : BlockNode) (view : UtxoViewpoint) : Prop where
  accepted : AcceptedChain rules node
  best : view.bestHash = node.hash rules.sha256d
  unspent : view.entries.unspent = utxosOf rules node

theorem ChainView.child (shows : ChainView rules parent view)
    (sane : checkBlockSanity rules block adjustedTime flags = .ok ())
    (connected : checkConnectBlock rules (.child parent block) view = .ok after) :
    ChainView rules (.child parent block) after := by
  obtain ⟨applied, best⟩ := unspent_of_checkConnectBlock connected
  refine ⟨shows.accepted.child sane ⟨view, after, shows.best, shows.unspent, connected⟩, best, ?_⟩
  rw [applied, shows.unspent]
  rfl

def connectChain (rules : ChainRules) (adjustedTime : Nat) : BlockNode → Option UtxoViewpoint
  | .genesis block =>
    if (BlockNode.genesis block).hash rules.sha256d = rules.genesisHash then
      some ⟨fun _ => none, rules.genesisHash⟩
    else none
  | .child parent block => do
      let view ← connectChain rules adjustedTime parent
      (checkBlockSanity rules block adjustedTime .none).toOption
      (checkConnectBlock rules (.child parent block) view).toOption

theorem eq_ok_of_toOption {ε α : Type} {result : Except ε α} {value : α}
    (isSome : result.toOption = some value) : result = .ok value := by
  cases result with
  | error error => cases isSome
  | ok other =>
    cases isSome
    rfl

theorem ChainView.of_connectChain {view : UtxoViewpoint}
    (connected : connectChain rules adjustedTime node = some view) : ChainView rules node view := by
  induction node generalizing view with
  | genesis block =>
    rw [connectChain] at connected
    split at connected
    · next genesis =>
      cases connected
      exact ⟨.root genesis, genesis.symm, rfl⟩
    · cases connected
  | child parent block ih =>
    simp only [connectChain, Option.bind_eq_bind, Option.bind_eq_some_iff]
      at connected
    obtain ⟨before, below, _, sane, connects⟩ := connected
    exact (ih below).child (eq_ok_of_toOption sane) (eq_ok_of_toOption connects)

theorem AcceptedChain.of_connectChain
    (connected : (connectChain rules adjustedTime node).isSome = true) :
    AcceptedChain rules node := by
  obtain ⟨view, connected⟩ := Option.isSome_iff_exists.mp connected
  exact (ChainView.of_connectChain connected).accepted

theorem map_withLedgers (value : MsgTx → α) {ledger : Ledger OutPoint SpentTxOut} :
    (withLedgers txRules blockHeight transactions ledger).map (fun entry => value entry.2) =
      transactions.map value := by
  induction transactions generalizing ledger with
  | nil => rfl
  | cons tx rest ih => rw [withLedgers, List.map_cons, ih, List.map_cons]

theorem checkConnectTransaction_of_mem
    (checked : txs.foldlM (checkConnectTransaction rules node) (entries, fees) =
      .ok (after, totalFees))
    (member : (ledger, tx) ∈ withLedgers rules.toTxRules node.height txs entries.unspent) :
    ∃ before fees next, UtxoEntries.unspent before = ledger ∧
      checkConnectTransaction rules node (before, fees) tx = .ok next := by
  induction txs generalizing entries fees with
  | nil => cases member
  | cons first rest ih =>
    rw [List.foldlM_cons, bind_eq_ok] at checked
    obtain ⟨⟨middle, middleFees⟩, firstChecked, others⟩ := checked
    rcases List.mem_cons.mp member with here | later
    · obtain ⟨rfl, rfl⟩ := Prod.mk.inj here
      exact ⟨entries, fees, _, rfl, firstChecked⟩
    · simp only [checkConnectTransaction, bind_eq_ok, describe_eq_ok, pure_eq_ok,
        Prod.mk.injEq] at firstChecked
      obtain ⟨_, _, _, _, _, _, _, _, _, connected, moved, _⟩ := firstChecked
      rw [← unspent_connectTransaction (Prod.ext moved connected)] at later
      exact ih others later

section Provenance

variable {node : BlockNode} {entry : BlockNode × Ledger OutPoint SpentTxOut × MsgTx}
  {outPoint : OutPoint} {coin : SpentTxOut}

theorem map_chainTransactions :
    (chainTransactions rules node).map (fun entry => (entry.1, entry.2.2)) = chainTxs node := by
  induction node with
  | genesis block => rfl
  | child parent block ih =>
    rw [chainTransactions, chainTxs, List.map_append, ih, List.map_map]
    exact congrArg (_ ++ ·) (map_withLedgers fun tx => (BlockNode.child parent block, tx))

theorem exists_mem_chainTransactions (listed : (node', tx) ∈ chainTxs node) :
    ∃ entry ∈ chainTransactions rules node, entry.1 = node' ∧ entry.2.2 = tx := by
  rw [← @map_chainTransactions rules] at listed
  obtain ⟨entry, member, same⟩ := List.mem_map.mp listed
  exact ⟨entry, member, Prod.mk.inj same⟩

theorem mem_chainTxs_of_mem (listed : tx ∈ block.transactions) :
    (.child parent block, tx) ∈ chainTxs (.child parent block) :=
  List.mem_append_right _ (List.mem_map_of_mem listed)

theorem created_of_mem_withLedgers
    (member : (middle, tx) ∈ withLedgers txRules blockHeight transactions ledger)
    (held : middle outPoint = some coin) : ledger outPoint = some coin ∨
      ∃ tx ∈ transactions, (outPoint, coin) ∈ (txTransfer txRules blockHeight tx).created := by
  induction transactions generalizing ledger with
  | nil => cases member
  | cons first rest ih =>
    rcases List.mem_cons.mp member with here | later
    · obtain ⟨rfl, _⟩ := Prod.mk.inj here
      exact .inl held
    · rcases ih later with before | ⟨tx, listed, created⟩
      · rcases Ledger.apply_eq_some before with first | created
        · exact .inl first
        · exact .inr ⟨_, .head _, created⟩
      · exact .inr ⟨tx, .tail _ listed, created⟩

theorem created_of_utxosOf (held : utxosOf rules node outPoint = some coin) :
    ∃ entry ∈ chainTransactions rules node, (outPoint, coin) ∈
      (txTransfer rules.toTxRules entry.1.height entry.2.2).created := by
  induction node with
  | genesis block => cases held
  | child parent block ih =>
    rcases Ledger.applyAll_eq_some held with before | ⟨_, transfers, created⟩
    · obtain ⟨entry, listed, created⟩ := ih before
      exact ⟨entry, List.mem_append_left _ listed, created⟩
    · obtain ⟨tx, listed, rfl⟩ := List.mem_map.mp transfers
      obtain ⟨entry, member, here, rfl⟩ := exists_mem_chainTransactions (mem_chainTxs_of_mem listed)
      exact ⟨entry, member, here ▸ created⟩

theorem created_of_mem_chainTransactions
    (member : entry ∈ chainTransactions rules node) (held : entry.2.1 outPoint = some coin) :
    ∃ created ∈ chainTransactions rules node, (outPoint, coin) ∈
      (txTransfer rules.toTxRules created.1.height created.2.2).created := by
  induction node with
  | genesis block => cases member
  | child parent block ih =>
    rcases List.mem_append.mp member with below | here
    · obtain ⟨created, listed, creates⟩ := ih below
      exact ⟨created, List.mem_append_left _ listed, creates⟩
    · obtain ⟨⟨middle, tx⟩, listed, rfl⟩ := List.mem_map.mp here
      have inBlock : utxosOf rules parent outPoint = some coin ∨
          ∃ tx ∈ block.transactions, (outPoint, coin) ∈ (txTransfer rules.toTxRules
            (BlockNode.child parent block).height tx).created := by
        rcases created_of_mem_withLedgers listed held with before | inBlock
        · exact fetchedLedger_eq_some before
        · exact .inr inBlock
      rcases inBlock with lower | ⟨tx, inBlock, creates⟩
      · obtain ⟨created, listed, creates⟩ := created_of_utxosOf lower
        exact ⟨created, List.mem_append_left _ listed, creates⟩
      · obtain ⟨entry, member, here, rfl⟩ :=
          exists_mem_chainTransactions (mem_chainTxs_of_mem inBlock)
        exact ⟨entry, member, here ▸ creates⟩

end Provenance

theorem mem_ancestors_of_mem_chainTransactions
    (member : entry ∈ chainTransactions rules node) : entry.1 ∈ node.ancestors := by
  induction node with
  | genesis block => cases member
  | child parent block ih =>
    rcases List.mem_append.mp member with below | here
    · exact .tail _ (ih below)
    · obtain ⟨_, _, rfl⟩ := List.mem_map.mp here
      exact .head _

theorem AcceptedChain.checkConnectTransaction (accepted : AcceptedChain rules node)
    (member : entry ∈ chainTransactions rules node) :
    ∃ entries fees next, UtxoEntries.unspent entries = entry.2.1 ∧
      BlockChain.checkConnectTransaction rules entry.1 (entries, fees) entry.2.2 = .ok next := by
  induction node with
  | genesis block => cases member
  | child parent block ih =>
    rcases List.mem_append.mp member with below | here
    · exact ih accepted.below below
    · obtain ⟨⟨ledger, tx⟩, listed, rfl⟩ := List.mem_map.mp here
      obtain ⟨view, after, _, unspent, connected⟩ := accepted.passes
      simp only [checkConnectBlock, bind_eq_ok] at connected
      obtain ⟨_, _, _, _, _, _, ⟨entries, fees⟩, looped, _⟩ := connected
      rw [← unspent, ← unspent_fetchInputUtxos] at listed
      exact checkConnectTransaction_of_mem looped listed

variable {first second : BlockNode}

theorem eq_of_length_ancestors
    (firstMember : first ∈ node.ancestors) (secondMember : second ∈ node.ancestors)
    (lengths : first.ancestors.length = second.ancestors.length) : first = second := by
  induction node with
  | genesis block =>
    rw [List.mem_singleton.mp firstMember, List.mem_singleton.mp secondMember]
  | child parent block ih =>
    rcases List.mem_cons.mp firstMember with rfl | firstBelow
    · rcases List.mem_cons.mp secondMember with rfl | secondBelow
      · rfl
      · have shorter := BlockNode.length_ancestors_le secondBelow
        rw [← lengths, BlockNode.ancestors, List.length_cons] at shorter
        omega
    · rcases List.mem_cons.mp secondMember with rfl | secondBelow
      · have shorter := BlockNode.length_ancestors_le firstBelow
        rw [lengths, BlockNode.ancestors, List.length_cons] at shorter
        omega
      · exact ih firstBelow secondBelow

def headerMessages (node : BlockNode) : Set Bytes :=
  {message | ∃ ancestor ∈ node.ancestors, message = writeBlockHeader ancestor.header}

theorem injOn_headerMessages
    (distinct : (node.ancestors.map (BlockNode.hash sha256d)).Nodup) :
    Set.InjOn sha256d (headerMessages node) := by
  rintro _ ⟨first, firstMember, rfl⟩ _ ⟨second, secondMember, rfl⟩ hashes
  rw [List.inj_on_of_nodup_map distinct firstMember secondMember hashes]

theorem genesis_eq_root
    (member : BlockNode.genesis block ∈ node.ancestors) : block = node.root := by
  induction node with
  | genesis root => exact BlockNode.genesis.inj (List.mem_singleton.mp member)
  | child parent child ih =>
    rcases List.mem_cons.mp member with here | below
    · cases here
    · exact ih below

namespace AcceptedChain

theorem linked (accepted : AcceptedChain rules node)
    (member : BlockNode.child parent block ∈ node.ancestors) :
    parent.hash rules.sha256d = block.msgHeader.blockHeader.prevBlock ∧
      (BlockNode.child parent block).hash rules.sha256d ≠
        (BlockNode.genesis node.root).hash rules.sha256d := by
  obtain ⟨_, view, after, best, _, connected⟩ := accepted.blocks parent block member
  simp only [checkConnectBlock, bind_eq_ok, require_eq_ok] at connected
  obtain ⟨_, notGenesis, _, isBest, _⟩ := connected
  rw [accepted.genesis]
  exact ⟨best.symm.trans isBest, notGenesis⟩

/-- No hash occurs twice: the hashes of the two parents would be equal too, and so
on down to the genesis block, whose hash no other block may have. -/
theorem length_ancestors_eq (accepted : AcceptedChain rules node)
    (headers : Set.InjOn rules.sha256d (headerMessages node))
    (firstMember : first ∈ node.ancestors) (secondMember : second ∈ node.ancestors)
    (hashes : first.hash rules.sha256d = second.hash rules.sha256d) :
    first.ancestors.length = second.ancestors.length := by
  induction first generalizing second with
  | genesis root =>
    cases second with
    | genesis other => rfl
    | child parent block =>
      rw [genesis_eq_root firstMember] at hashes
      exact absurd hashes.symm (accepted.linked secondMember).2
  | child parent block ih =>
    cases second with
    | genesis root =>
      rw [genesis_eq_root secondMember] at hashes
      exact absurd hashes (accepted.linked firstMember).2
    | child other otherBlock =>
      have header : block.msgHeader.blockHeader = otherBlock.msgHeader.blockHeader :=
        writeBlockHeader_injective (headers ⟨_, firstMember, rfl⟩ ⟨_, secondMember, rfl⟩ hashes)
      have parents : parent.hash rules.sha256d = other.hash rules.sha256d := by
        rw [(accepted.linked firstMember).1, (accepted.linked secondMember).1, header]
      have below := ih
        (BlockNode.mem_ancestors_trans firstMember (.tail _ BlockNode.self_mem_ancestors))
        (BlockNode.mem_ancestors_trans secondMember (.tail _ BlockNode.self_mem_ancestors)) parents
      rw [BlockNode.ancestors, BlockNode.ancestors, List.length_cons, List.length_cons, below]

theorem eq_of_hash_eq (accepted : AcceptedChain rules node)
    (headers : Set.InjOn rules.sha256d (headerMessages node))
    (firstMember : first ∈ node.ancestors) (secondMember : second ∈ node.ancestors)
    (hashes : first.hash rules.sha256d = second.hash rules.sha256d) : first = second :=
  eq_of_length_ancestors firstMember secondMember
    (accepted.length_ancestors_eq headers firstMember secondMember hashes)

end AcceptedChain

end ModelOS.BlockChain
