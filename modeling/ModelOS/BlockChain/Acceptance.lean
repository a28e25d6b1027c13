import ModelOS.BlockChain.BestChain
import ModelOS.BlockChain.TreeJoin
import ModelOS.BlockChain.ViewVerdict

namespace ModelOS.BlockChain

open Data Wire ZkPow

/-! A valid block on a branch of valid blocks is accepted. -/

/-- The whole of `checkConnectBlock` passes on every view of the parent's utxo
set. -/
def AlwaysConnects (rules : ChainRules) (parent : BlockNode) (block : MsgBlock) : Prop :=
  ∀ view : UtxoViewpoint, view.bestHash = parent.hash rules.sha256d →
    view.entries.unspent = utxosOf rules parent →
      ∃ after, checkConnectBlock rules (.child parent block) view = .ok after

section Accept

variable {rules : ChainRules} {chain : Chain} {parent fork : BlockNode}
  {block : MsgBlock} {flags : BehaviorFlags}

theorem AlwaysConnects.passes (connects : AlwaysConnects rules parent block)
    {entries : UtxoEntries} (utxos : entries.unspent = utxosOf rules parent) :
    PassesConnect rules parent block := by
  obtain ⟨after, checked⟩ := connects ⟨entries, parent.hash rules.sha256d⟩ rfl utxos
  exact ⟨_, after, rfl, utxos, checked⟩

theorem PassesConnect.alwaysConnects (passes : PassesConnect rules parent block)
    (reads : ReadsInputs rules) : AlwaysConnects rules parent block := by
  obtain ⟨view, after, best, utxos, checked⟩ := passes
  intro other otherBest otherUtxos
  exact checkConnectBlock_of_unspent_eq reads (best.trans otherBest.symm)
    (utxos.trans otherUtxos.symm) checked

theorem not_alwaysConnects
    (best : view.bestHash = parent.hash rules.sha256d)
    (utxos : view.entries.unspent = utxosOf rules parent)
    (failed : checkConnectBlock rules (.child parent block) view = .error error) :
    ¬ AlwaysConnects rules parent block := by
  intro connects
  obtain ⟨after, passed⟩ := connects view best utxos
  rw [failed] at passed
  cases passed

variable {detach attach : List BlockNode}

theorem Attaches.eq_ok
    (attaches : Attaches rules chain attach outcome)
    (connects : ∀ parent block, BlockNode.child parent block ∈ attach →
      AlwaysConnects rules parent block) : outcome.2 = .ok () := by
  induction attaches with
  | ended => rfl
  | stopped _ utxos best checked =>
    exact absurd (connects _ _ (.head _)) (not_alwaysConnects best utxos checked)
  | known _ _ ih => exact ih fun parent block member => connects parent block (.tail _ member)
  | passed _ _ _ _ ih => exact ih fun parent block member => connects parent block (.tail _ member)
  | failed _ _ _ utxos best checked =>
    exact absurd (connects _ _ (.head _)) (not_alwaysConnects best utxos checked)

theorem reorganizeChain_eq_ok (invariant : ChainInvariant rules chain)
    (plan : ReorganizePlan rules chain detach attach)
    (connects : ∀ parent block, BlockNode.child parent block ∈ attach →
      AlwaysConnects rules parent block) :
    ∃ after, reorganizeChain rules chain detach attach = (after, .ok ()) := by
  obtain ⟨_, verdict, attaches, verified⟩ := attaches_verifyReorganizationValidity invariant plan
  have passed : verdict = .ok () := attaches.eq_ok connects
  rw [passed] at verified
  obtain ⟨after, result, reorganized, _, _, _, goesThrough⟩ := reorganizeChain_spec invariant plan
  rw [goesThrough _ (congrArg Prod.snd verified)] at reorganized
  exact ⟨after, reorganized⟩

theorem TreePlan.reorganizePlan
    (plan : TreePlan rules chain detach attach last) :
    ReorganizePlan rules chain detach attach := by
  obtain ⟨fork, path, branch⟩ := plan.meets
  exact ⟨⟨fork, last, path, branch⟩, plan.known⟩

theorem connectBestChain_eq_ok (invariant : ChainInvariant rules chain)
    (tree : TreeInvariant rules chain) (known : Known rules chain (.child parent block))
    (fresh : nodeStatus rules chain (.child parent block) = statusDataStored)
    (clean : Clean rules chain (.child parent block))
    (connects : ∀ parent block, Known rules chain (.child parent block) →
      AlwaysConnects rules parent block) :
    ∃ after isMainChain, connectBestChain rules chain parent block flags =
      (after, .ok isMainChain) := by
  obtain ⟨linked, parentKnown⟩ := tree.linked parent block known
  obtain ⟨entry, found, isNode⟩ := exists_entry_of_lookupNode known
  have child := invariant.children _ entry parent block found isNode
  have sane := child.sane
  have notValid : (nodeStatus rules chain (.child parent block)).valid = false := by
    rw [fresh]
    rfl
  rw [connectBestChain]
  dsimp only
  split
  · next extendsTip =>
    have atTip : block.msgHeader.blockHeader.prevBlock = chain.tip.hash rules.sha256d := extendsTip
    obtain rfl : parent = chain.tip := parentKnown.eq_of_hash_eq tree.tip (linked.symm.trans atTip)
    have connects := connects chain.tip block known
    have connectable := child.connectable (connects.passes invariant.utxos)
    rw [notValid, Bool.or_false]
    cases flags.fastAdd with
    | true =>
      obtain ⟨entries, _, connected⟩ := connectTip_eq invariant.utxos atTip sane connectable
      simp only [if_true, connected, Bool.true_or]
      exact ⟨_, _, rfl⟩
    | false =>
      obtain ⟨view, checked⟩ :=
        connects ⟨chain.utxoCache, (BlockNode.child chain.tip block).header.prevBlock⟩
          atTip invariant.utxos
      obtain ⟨entries, _, connected⟩ := @connectTip_eq rules
        (setStatusFlags rules chain (.child chain.tip block) statusValid) block
        invariant.utxos atTip sane connectable
      have connected : connectTip rules
          (setStatusFlags rules chain (.child chain.tip block) statusValid)
          (.child chain.tip block) = _ := connected
      simp only [Bool.false_eq_true, if_false, checked, connected]
      exact ⟨_, _, rfl⟩
  · split
    · exact ⟨chain, false, rfl⟩
    · obtain ⟨detach, attach, nodes, plan⟩ := getReorganizeNodes_of_clean tree known clean
      obtain ⟨after, reorganized⟩ := reorganizeChain_eq_ok invariant plan.reorganizePlan
        (fun parent block member => connects parent block (plan.known _ member))
      simp only [nodes, reorganized]
      exact ⟨after, true, rfl⟩

theorem TreeInvariant.checkpoints (tree : TreeInvariant rules chain)
    (checkpointNode : Option BlockNode) (nextCheckpoint : Option Checkpoint) :
    TreeInvariant rules { chain with checkpointNode, nextCheckpoint } :=
  tree.congr rfl rfl

/-- What makes a block acceptable in a state, beside its own validity: its parent
is known, and so far every known block is clean and connects. -/
structure Welcoming (rules : ChainRules) (chain : Chain) : Prop where
  invariant : ChainInvariant rules chain
  tree : TreeInvariant rules chain
  clean : ∀ node, Known rules chain node → Clean rules chain node
  connects : ∀ parent block, Known rules chain (.child parent block) →
    AlwaysConnects rules parent block

theorem maybeAcceptBlock_eq_ok (welcoming : Welcoming rules chain)
    {fastAdded : Bool} (own : fastAdded = flags.fastAdd)
    (isNew : chain.index (blockHashOf rules block) = none)
    (found : lookupNode chain block.msgHeader.blockHeader.prevBlock = some parent)
    (sane : SaneTransactions rules block.transactions) (inOrder : SpendsInOrder rules block)
    (context : checkBlockContext rules block parent flags
      (findPreviousCheckpoint rules chain).2 = .ok ())
    (connects : AlwaysConnects rules parent block) :
    ∃ after isMainChain, maybeAcceptBlock rules chain block flags fastAdded =
      (after, .ok isMainChain) := by
  obtain ⟨invariant, tree, clean, allConnect⟩ := welcoming
  have parentKnown := tree.known found
  have notInvalid : (nodeStatus rules chain parent).knownInvalid = false :=
    clean parent parentKnown parent BlockNode.self_mem_ancestors
  have passes : fastAdded = false → PassesContext rules parent block
      (findPreviousCheckpoint rules chain).2.toOption.join := by
    intro notFast
    exact passesContext_of_checkBlockContext context (own.symm.trans notFast)
  obtain ⟨checkpointNode, nextCheckpoint, looked⟩ :=
    @afterContextLookup_chain rules flags chain block.msgHeader.blockHeader parent
  unfold maybeAcceptBlock
  simp only [found, notInvalid, Bool.false_eq_true, if_false, context, looked]
  have moved := tree.checkpoints checkpointNode nextCheckpoint
  have stillNew : ({ chain with checkpointNode, nextCheckpoint } : Chain).index
      (blockHashOf rules block) = none := isNew
  have added := (invariant.checkpoints checkpointNode nextCheckpoint).addNode isNew
    found sane inOrder passes
  generalize entryOf : IndexEntry.mk (.child parent block) statusDataStored fastAdded
    (findPreviousCheckpoint rules chain).2.toOption.join = entry at *
  have isNode : entry.node = .child parent block := by
    rw [← entryOf]
  obtain ⟨addedTree, known⟩ := moved.addNode stillNew isNode found
  have fresh := @nodeStatus_addNode_self rules
    { chain with checkpointNode, nextCheckpoint } parent block entry
  have isFresh : entry.status = statusDataStored := by
    rw [← entryOf]
  rw [isFresh] at fresh
  refine connectBestChain_eq_ok added addedTree known fresh ?_ ?_
  · rw [clean_child_iff fresh, moved.sameClean_addNode stillNew parent parentKnown]
    exact clean parent parentKnown
  · intro parent' block' present
    rcases lookupNode_addNode_cases isNode present with ⟨_, same⟩ | earlier
    · obtain ⟨rfl, rfl⟩ := BlockNode.child.inj same
      exact connects
    · exact allConnect parent' block' earlier

end Accept

end ModelOS.BlockChain
