import ModelOS.BlockChain.ManualStatus
import ModelOS.BlockChain.Convergence
import ModelOS.BlockChain.WitnessCommitment

namespace ModelOS.BlockChain

open Data Wire ZkPow

/-! Blocks with one header that are both let into the index have one body. -/

/-- Of the blocks on top of a parent the rules of other packages read the header
and the transactions only. -/
structure ReadsBody (rules : ChainRules) : Prop where
  checkInferenceGoTx : ∀ tx parent first second,
    first.msgHeader.blockHeader = second.msgHeader.blockHeader →
      first.transactions = second.transactions → rules.checkInferenceGoTx tx (.child parent first) =
          rules.checkInferenceGoTx tx (.child parent second)
  checkInferenceBountySpends : ∀ tx parent first second entries,
    first.msgHeader.blockHeader = second.msgHeader.blockHeader →
      first.transactions = second.transactions →
        rules.checkInferenceBountySpends tx (.child parent first) entries =
          rules.checkInferenceBountySpends tx (.child parent second) entries
  sequenceLockActive : ∀ tx parent first second entries,
    first.msgHeader.blockHeader = second.msgHeader.blockHeader →
      first.transactions = second.transactions →
        rules.sequenceLockActive (.child parent first) tx entries =
          rules.sequenceLockActive (.child parent second) tx entries
  checkBlockScripts : ∀ first second entries, first.transactions = second.transactions →
      rules.checkBlockScripts first entries = rules.checkBlockScripts second entries

section Verdict

variable {rules : ChainRules} {parent : BlockNode} {first second : MsgBlock}

theorem ReadsBody.committing (reads : ReadsBody rules) : ReadsBody (committingRules rules) :=
  ⟨reads.checkInferenceGoTx, reads.checkInferenceBountySpends,
    reads.sequenceLockActive, reads.checkBlockScripts⟩

theorem checkConnectBlock_eq_of_body_eq (reads : ReadsBody rules)
    (header : first.msgHeader.blockHeader = second.msgHeader.blockHeader)
    (transactions : first.transactions = second.transactions) (view : UtxoViewpoint) :
    checkConnectBlock rules (.child parent first) view =
      checkConnectBlock rules (.child parent second) view := by
  have headers : (BlockNode.child parent first).header =
      (BlockNode.child parent second).header := header
  have hashes : (BlockNode.child parent first).hash rules.sha256d =
      (BlockNode.child parent second).hash rules.sha256d := by
    rw [BlockNode.hash, headers, BlockNode.hash]
  have heights : (BlockNode.child parent first).height =
      (BlockNode.child parent second).height := rfl
  have bodies : (BlockNode.child parent first).block.transactions =
      (BlockNode.child parent second).block.transactions := transactions
  have loops : checkConnectTransaction rules (.child parent first) =
      checkConnectTransaction rules (.child parent second) := by
    funext state tx
    rw [checkConnectTransaction, checkConnectTransaction,
      reads.checkInferenceGoTx tx parent first second header transactions,
      reads.checkInferenceBountySpends tx parent first second state.1 header transactions]
    rfl
  have scripts : ∀ entries, rules.checkBlockScripts
      (BlockNode.child parent first).block entries =
        rules.checkBlockScripts (BlockNode.child parent second).block entries :=
    fun entries => reads.checkBlockScripts first second entries transactions
  have active : ∀ tx entries, rules.sequenceLockActive (.child parent first) tx
      entries = rules.sequenceLockActive (.child parent second) tx entries :=
    fun tx entries =>
      reads.sequenceLockActive tx parent first second entries header transactions
  have ran : runsScripts rules (.child parent first) =
      runsScripts rules (.child parent second) := rfl
  simp only [checkConnectBlock, checkBIP0030, hashes, headers, bodies, loops, active,
    scripts, ran, heights]

end Verdict

def PassesSanity (rules : ChainRules) (block : MsgBlock) : Prop :=
  ∃ adjustedTime flags, checkBlockSanity rules block adjustedTime flags = .ok ()

structure ScreenedChild (rules : ChainRules) (entry : IndexEntry)
    (parent : BlockNode) (block : MsgBlock) : Prop where
  full : entry.fastAdded = false
  sanity : PassesSanity rules block
  failed : entry.status.validateFailed = true → ¬ AlwaysConnects rules parent block

def Screened (rules : ChainRules) (chain : Chain) : Prop :=
  ∀ hash entry parent block, chain.index hash = some entry →
    entry.node = .child parent block → ScreenedChild rules entry parent block

section Screen

variable {rules : ChainRules} {chain after : Chain} {node parent : BlockNode}
  {block : MsgBlock} {flags : BehaviorFlags}

section

variable (screened : Screened rules chain)
include screened

theorem Screened.of_index (index : after.index = chain.index) : Screened rules after := by
  intro hash entry parent block found
  rw [index] at found
  exact screened hash entry parent block found

theorem Screened.setStatusFlags {marks : BlockStatus → BlockStatus} (known : Known rules chain node)
    (reason : ∀ status : BlockStatus, (marks status).validateFailed = true →
      status.validateFailed = true ∨ ∀ parent block, node = .child parent block →
          ¬ AlwaysConnects rules parent block) :
    Screened rules (setStatusFlags rules chain node marks) := by
  intro hash entry parent block found isNode
  obtain ⟨before, foundBefore, same, status⟩ := index_setStatusFlags found
  have isNodeBefore : before.node = .child parent block := by
    rw [same] at isNode
    exact isNode
  have child := screened hash before parent block foundBefore isNodeBefore
  refine ⟨?_, child.sanity, ?_⟩
  · rw [same]
    exact child.full
  · intro failed
    rcases status with unchanged | ⟨rfl, marked⟩
    · rw [unchanged] at failed
      exact child.failed failed
    · rw [marked] at failed
      rcases reason _ failed with already | unsound
      · exact child.failed already
      · apply unsound
        rw [Known, lookupNode, foundBefore, Option.map_some, isNodeBefore] at known
        exact (Option.some.inj known).symm

theorem Screened.setAllInvalidAncestor (known : ∀ node ∈ nodes, Known rules chain node) :
    Screened rules (setAllFlags rules chain nodes statusInvalidAncestor) := by
  induction nodes generalizing chain with
  | nil => exact screened
  | cons node rest ih =>
    refine ih (screened.setStatusFlags (known node (.head _)) fun _ => .inl) ?_
    intro other member
    exact (known other (.tail _ member)).of_sameNodes (lookupNode_setStatusFlags _)

theorem Screened.setFailed (known : Known rules chain (.child parent block))
    (unsound : ¬ AlwaysConnects rules parent block) :
    Screened rules (BlockChain.setStatusFlags rules chain (.child parent block)
      statusValidateFailed) := by
  refine screened.setStatusFlags known ?_
  intro status _
  refine .inr ?_
  intro parent' block' same
  obtain ⟨rfl, rfl⟩ := BlockNode.child.inj same
  exact unsound

end

theorem Attaches.screened
    (attaches : Attaches rules chain attach outcome) (screened : Screened rules chain) :
    Screened rules outcome.1 := by
  induction attaches with
  | ended => exact screened
  | stopped => exact screened
  | known _ _ ih => exact ih screened
  | passed _ here _ _ ih => exact ih (screened.setStatusFlags here fun _ => .inl)
  | failed _ _ indexed utxos best checked =>
    refine (screened.setFailed (indexed _ (.head _))
      (not_alwaysConnects best utxos checked)).setAllInvalidAncestor ?_
    intro other member
    exact Known.of_sameNodes (indexed other (.tail _ member)) (lookupNode_setStatusFlags _)

theorem verifyReorganizationValidity_screened (invariant : ChainInvariant rules chain)
    (screened : Screened rules chain)
    (plan : ReorganizePlan rules chain detach attach) :
    Screened rules (verifyReorganizationValidity rules chain detach attach).1 := by
  obtain ⟨_, _, attaches, verified⟩ := attaches_verifyReorganizationValidity invariant plan
  rw [verified]
  exact attaches.screened screened

theorem getReorganizeNodes_screened (invariant : ChainInvariant rules chain)
    (screened : Screened rules chain) (known : Known rules chain node) :
    Screened rules (getReorganizeNodes rules chain parent node).1 := by
  rw [getReorganizeNodes]
  split
  · exact screened.setStatusFlags known fun _ => .inl
  · dsimp only
    split
    · refine screened.setAllInvalidAncestor ?_
      intro other member
      exact invariant.ancestors_indexed known ((List.takeWhile_subset _)
        ((List.takeWhile_subset _) (List.mem_reverse.mp member)))
    · exact screened

theorem connectBestChain_screened (invariant : ChainInvariant rules chain)
    (screened : Screened rules chain)
    (found : chain.index ((BlockNode.child parent block).hash rules.sha256d) = some entry)
    (isNode : entry.node = .child parent block)
    (isNew : entry.status = statusDataStored) (full : flags.fastAdd = false) :
    Screened rules (connectBestChain rules chain parent block flags).1 := by
  have child := invariant.children _ entry parent block found isNode
  have known : Known rules chain (.child parent block) := by
    rw [Known, lookupNode, found, Option.map_some, isNode]
  have notValid : (nodeStatus rules chain (.child parent block)).valid = false := by
    simp only [nodeStatus, found, Option.map_some, Option.getD_some, isNew]
    rfl
  rw [connectBestChain]
  dsimp only
  split
  · next extendsTip =>
    have linked : block.msgHeader.blockHeader.prevBlock = chain.tip.hash rules.sha256d := extendsTip
    obtain rfl : parent = chain.tip := by
      have parentKnown := child.parentIndexed
      rw [← child.linked, linked, invariant.tip] at parentKnown
      exact (Option.some.inj parentKnown).symm
    simp only [notValid, full, Bool.or_false, Bool.false_eq_true, if_false]
    cases checked : checkConnectBlock rules (.child chain.tip block)
        ⟨chain.utxoCache, (BlockNode.child chain.tip block).header.prevBlock⟩ with
    | error error =>
      cases error with
      | rule error =>
        exact screened.setFailed known (not_alwaysConnects linked invariant.utxos checked)
      | assert description => exact screened
    | ok view =>
      -- What passes the check connects to the tip.
      have connects := child.connectable ⟨_, view, linked, invariant.utxos, checked⟩
      obtain ⟨entries, utxos, connected⟩ := @connectTip_eq rules
        (setStatusFlags rules chain (.child chain.tip block) statusValid)
        block invariant.utxos linked child.sane connects
      have connected : connectTip rules
          (setStatusFlags rules chain (.child chain.tip block) statusValid)
          (.child chain.tip block) = _ := connected
      have valid : Screened rules
          (setStatusFlags rules chain (.child chain.tip block) statusValid) :=
        screened.setStatusFlags known fun _ => .inl
      have marked : Screened rules (extendTip rules
          (setStatusFlags rules chain (.child chain.tip block) statusValid) block entries) :=
        valid.of_index rfl
      simp only [connected]
      split
      · refine marked.setStatusFlags ?_ fun _ => .inl
        exact known.of_sameNodes (lookupNode_setStatusFlags _)
      · exact marked
  · split
    · exact screened
    · obtain ⟨marked, detach, attach, nodes, holds, _, plan⟩ :=
        getReorganizeNodes_spec invariant parent known
      have markedScreened := @getReorganizeNodes_screened rules chain _ parent
        invariant screened known
      rw [nodes] at markedScreened
      have verified := verifyReorganizationValidity_screened holds markedScreened plan
      obtain ⟨final, result, ended, _, _, index, _⟩ := reorganizeChain_spec holds plan
      simp only [nodes, ended]
      cases result with
      | error error => exact verified.of_index index
      | ok => exact verified.of_index index

theorem Screened.addNode (screened : Screened rules chain) {entry : IndexEntry}
    (isNode : entry.node = .child parent block) (joins : ScreenedChild rules entry parent block) :
    Screened rules (addNode rules chain block entry) := by
  intro hash other grandparent below lookup isOther
  rcases index_addNode lookup with ⟨_, rfl⟩ | found
  · obtain ⟨rfl, rfl⟩ := BlockNode.child.inj (isNode.symm.trans isOther)
    exact joins
  · exact screened hash other grandparent below found isOther

theorem maybeAcceptBlock_screened (invariant : ChainInvariant rules chain)
    (screened : Screened rules chain) (isNew : chain.index (blockHashOf rules block) = none)
    (sanity : PassesSanity rules block) (inOrder : SpendsInOrder rules block)
    (full : flags.fastAdd = false) :
    Screened rules (maybeAcceptBlock rules chain block flags false).1 := by
  have sane : SaneTransactions rules block.transactions := by
    obtain ⟨_, _, checked⟩ := sanity
    exact sane_of_checkBlockSanity checked
  unfold maybeAcceptBlock
  dsimp only
  split
  · exact screened
  · next prevNode known =>
    split
    · exact screened
    · obtain ⟨checkpointNode, nextCheckpoint, looked⟩ :=
        @afterContextLookup_chain rules flags chain block.msgHeader.blockHeader prevNode
      rw [looked]
      have invariant := invariant.checkpoints checkpointNode nextCheckpoint
      have screened : Screened rules { chain with checkpointNode, nextCheckpoint } :=
        screened.of_index rfl
      split
      · exact screened
      · next checked =>
        have added := @ChainInvariant.addNode rules _ prevNode block invariant
          false _ isNew known sane inOrder
          fun _ => passesContext_of_checkBlockContext checked full
        have joined := @Screened.addNode rules _ prevNode block screened
          ⟨.child prevNode block, statusDataStored, false,
            (findPreviousCheckpoint rules chain).2.toOption.join⟩ rfl
          ⟨rfl, sanity, fun failed => Bool.noConfusion failed⟩
        exact connectBestChain_screened added joined index_addNode_self rfl rfl full

structure ScreenedState (rules : ChainRules) (state : ChainState) : Prop
    extends StateInvariant rules state where
  index : Screened rules state.chain
  orphans : ∀ orphan ∈ state.orphans, orphan.fastAdded = false ∧ PassesSanity rules orphan.block

theorem processBlock_screened
    (screened : ScreenedState rules state) (full : flags.fastAdd = false)
    (inOrder : SpendsInOrder rules block) : ScreenedState rules
      (processBlock rules state block flags adjustedTime keep).1 := by
  have invariant := screened.toStateInvariant
  have index : Screened rules (findPreviousCheckpoint rules state.chain).1 := by
    obtain ⟨_, _, moved⟩ := @findPreviousCheckpoint_chain rules state.chain
    rw [moved]
    exact screened.index.of_index rfl
  refine processBlock_induction screened ⟨invariant.looked, index, screened.orphans⟩ ?_ ?_ ?_
  · intro admissible
    refine ⟨invariant.pooled inOrder admissible, index, ?_⟩
    intro orphan member
    rcases List.mem_append.mp member with earlier | last
    · exact screened.orphans orphan (List.mem_of_mem_filter earlier)
    · rw [List.mem_singleton.mp last]
      exact ⟨full, _, _, admissible.sane⟩
  · intro after result admissible ended
    have accepts := maybeAcceptBlock_screened invariant.looked.chain index
      admissible.index_findPreviousCheckpoint ⟨_, _, admissible.sane⟩ inOrder full
    have accepted := invariant.accepted inOrder (by simp [full]) admissible ended
    rw [full] at ended
    rw [ended] at accepts
    exact ⟨accepted, accepts, screened.orphans⟩
  · refine processOrphans_induction ?_
    intro chain orphans orphan after result member ended holds
    obtain ⟨own, sanity⟩ := holds.orphans orphan member
    have served := @maybeAcceptBlock_screened rules chain orphan.block flags holds.chain
      holds.index (holds.pool.absent orphan member) sanity (holds.inOrder orphan member) full
    rw [← own, ended] at served
    exact ⟨serve_spec full member ended holds.toStateInvariant, served,
      fun other kept => holds.orphans other (List.mem_of_mem_filter kept)⟩

/-- Nothing is added fast, and what passes spends in order. -/
def Action.Full (rules : ChainRules) : Action → Prop
  | .processBlock block flags _ _ => flags.fastAdd = false ∧ SpendsInOrder rules block
  | .flushUtxoCache => True

theorem screenedState_initial (rules : ChainRules) (genesis : MsgBlock) :
    ScreenedState rules (.initial rules genesis) := by
  refine ⟨stateInvariant_initial rules genesis, ?_, by rintro _ ⟨⟩⟩
  intro hash entry parent block found isNode
  simp only [ChainState.initial, Chain.initial] at found
  rcases eq_or_ne hash ((BlockNode.genesis genesis).hash rules.sha256d) with
    rfl | distinct
  · rw [Function.update_self] at found
    cases found
    cases isNode
  · rw [Function.update_of_ne distinct] at found
    cases found

theorem run_screened (screened : ScreenedState rules state)
    (full : ∀ action ∈ actions, action.Full rules) :
    ScreenedState rules (run rules state actions) := by
  induction actions generalizing state with
  | nil => exact screened
  | cons action rest ih =>
    refine @ih (step rules state action) ?_
      fun other member => full other (.tail _ member)
    have here := full action (.head _)
    cases action with
    | processBlock block flags adjustedTime keep =>
      exact processBlock_screened screened here.1 here.2
    | flushUtxoCache =>
      exact ⟨@step_spec rules state screened.toStateInvariant .flushUtxoCache
        trivial, screened.index.of_index rfl, screened.orphans⟩

end Screen

theorem AlwaysConnects.of_body_eq (connects : AlwaysConnects rules parent first)
    (reads : ReadsBody rules) (header : first.msgHeader.blockHeader = second.msgHeader.blockHeader)
    (transactions : first.transactions = second.transactions) :
    AlwaysConnects rules parent second := by
  intro view best utxos
  rw [← checkConnectBlock_eq_of_body_eq reads header transactions]
  exact connects view best utxos

theorem ScreenedState.passesChecks
    (screened : ScreenedState rules state)
    {hash : Hash} (found : lookupNode state.chain hash = some (.child parent block)) :
    PassesChecks rules parent block := by
  obtain ⟨entry, indexed, isNode⟩ := exists_entry_of_lookupNode found
  have child := screened.index hash entry parent block indexed isNode
  have context := (screened.chain.children hash entry parent block indexed
    isNode).context child.full
  exact ⟨child.sanity, .none, _, rfl, context⟩

/-- Blocks with one header that both pass the checks without context and on top of their
parent have the same transactions, witnesses included, and connect alike.  A hash with a valid
body is then never stored with other transactions, nor marked as failed, whatever was delivered
before, as long as the delivered blocks that pass spend in order. -/
theorem body_cannot_poison_hash (rules : ChainRules) (reads : ReadsBody rules) :
    (∀ parent first second, CollisionFree rules.sha256d first second →
      first.msgHeader.blockHeader = second.msgHeader.blockHeader →
      PassesChecks (committingRules rules) parent first →
      PassesChecks (committingRules rules) parent second →
        first.transactions = second.transactions ∧
          ∀ view, checkConnectBlock (committingRules rules) (.child parent first) view =
            checkConnectBlock (committingRules rules) (.child parent second) view) ∧
    ∀ genesis actions, (∀ action ∈ actions, action.Full (committingRules rules)) →
      ∀ chain, chain = (run (committingRules rules)
        (.initial (committingRules rules) genesis) actions).chain →
      ∀ parent body stored,
        lookupNode chain (blockHashOf rules body) = some (.child parent stored) →
        CollisionFree rules.sha256d body stored → PassesChecks (committingRules rules) parent body →
        AlwaysConnects (committingRules rules) parent body →
          stored.transactions = body.transactions ∧
            (nodeStatus (committingRules rules) chain
              (.child parent stored)).validateFailed = false := by
  refine ⟨?_, ?_⟩
  · intro parent first second free header firstPasses secondPasses
    have transactions := transactions_eq_of_header_eq free firstPasses.committed
      secondPasses.committed header
    exact ⟨transactions, checkConnectBlock_eq_of_body_eq reads.committing header transactions⟩
  · rintro genesis actions full chain rfl parent body stored found free passes connects
    have screened := run_screened (screenedState_initial (committingRules rules) genesis) full
    obtain ⟨entry, indexed, isNode⟩ := exists_entry_of_lookupNode found
    have hashes := screened.chain.hash _ entry indexed
    rw [isNode] at hashes
    have header : body.msgHeader.blockHeader = stored.msgHeader.blockHeader :=
      writeBlockHeader_injective (free.messages (.inl (.head _)) (.inr (.head _)) hashes.symm)
    have transactions := transactions_eq_of_header_eq free passes.committed
      (screened.passesChecks found).committed header
    refine ⟨transactions.symm, ?_⟩
    have child := screened.index _ entry parent stored indexed isNode
    rw [nodeStatus, hashes, indexed, Option.map_some, Option.getD_some]
    by_contra failed
    exact child.failed (by simpa using failed)
      (connects.of_body_eq reads.committing header transactions)

namespace ForwardSpend

abbrev committing : ChainRules :=
  committingRules rules

/-- The honest block with other certificate data, to which its hash does not commit. -/
def reproved : MsgBlock :=
  { honestBlock with msgHeader := ⟨some ⟨.zero 32, .zero publicDataSize, [1]⟩, honestHeader⟩ }

theorem readsBody : ReadsBody rules :=
  ⟨fun _ _ _ _ _ _ => rfl, fun _ _ _ _ _ _ _ => rfl, fun _ _ _ _ _ _ _ => rfl,
    fun _ _ _ _ => rfl⟩

theorem passesChecks_honestBlock : PassesChecks committing firstNode honestBlock :=
  ⟨⟨1776675700, .none, by decide +kernel⟩, .none, .ok none, rfl, by decide +kernel⟩

theorem alwaysConnects_honestBlock : AlwaysConnects committing firstNode honestBlock := by
  have accepted : AcceptedChain rules (.child firstNode honestBlock) :=
    @AcceptedChain.of_connectChain _ _ 1776675700 (by decide +kernel)
  exact accepted.passes.alwaysConnects readsInputs

theorem collisionFree_honestBlock : CollisionFree rules.sha256d honestBlock honestBlock :=
  collisionFree_self (by decide +kernel) (by decide +kernel)

end ForwardSpend

open ForwardSpend in
open SimNetExample (genesisBlock submit) in
/-- The block that came first keeps the hash, and the verdict on it is the other's. -/
theorem body_cannot_poison_hash_simNet :
    (honestBlock ≠ reproved ∧ ∀ view,
      checkConnectBlock committing (.child firstNode honestBlock) view =
        checkConnectBlock committing (.child firstNode reproved) view) ∧
    ∃ chain, chain = (run committing (.initial committing genesisBlock)
        [submit firstBlock .none, submit reproved .none]).chain ∧
      lookupNode chain (blockHashOf ForwardSpend.rules honestBlock) =
        some (.child firstNode reproved) ∧
      (nodeStatus committing chain (.child firstNode reproved)).validateFailed = false := by
  have free : CollisionFree ForwardSpend.rules.sha256d honestBlock reproved :=
    ⟨collisionFree_honestBlock.messages, collisionFree_honestBlock.leaves⟩
  have passes : PassesChecks committing firstNode reproved :=
    ⟨⟨1776675700, .none, by decide +kernel⟩, .none, .ok none, rfl, by decide +kernel⟩
  have found : lookupNode (run committing (.initial committing genesisBlock)
        [submit firstBlock .none, submit reproved .none]).chain
      (blockHashOf ForwardSpend.rules honestBlock) = some (.child firstNode reproved) := by
    have ran : run committing (.initial committing genesisBlock)
        [submit firstBlock .none, submit reproved .none] = _ :=
      @run_deliver _ _ 1776675700 [firstBlock, reproved] rfl (by decide +kernel)
    rw [ran]
    decide +kernel
  have full : ∀ action ∈ [submit firstBlock .none, submit reproved .none],
      action.Full committing := by
    simp only [List.forall_mem_cons, Action.Full, submit]
    exact ⟨⟨rfl, @spendsInOrder_of_inOrder (.genesis genesisBlock) _ _ (by decide)⟩,
      ⟨rfl, @spendsInOrder_of_inOrder firstNode _ _ (by decide)⟩, by rintro _ ⟨⟩⟩
  have poisoned := body_cannot_poison_hash ForwardSpend.rules readsBody
  have verdicts := poisoned.1 firstNode honestBlock reproved free rfl passesChecks_honestBlock passes
  have kept := poisoned.2 genesisBlock _ full _ rfl firstNode honestBlock reproved found free
    passesChecks_honestBlock alwaysConnects_honestBlock
  exact ⟨⟨by simp [honestBlock, reproved, SimNetExample.withHeader], verdicts.2⟩,
    _, rfl, found, kept.2⟩

open ForwardSpend in
open SimNetExample (genesisBlock submit) in
/-- The block that spends forward is checked, fails in the cache and leaves its first payment
there.  The next block has the same payment, which then counts as an overwriting one. -/
theorem body_poisons_hash_forward : ReadsBody ForwardSpend.rules ∧
    CollisionFree ForwardSpend.rules.sha256d honestBlock honestBlock ∧
    PassesChecks committing firstNode honestBlock ∧
    AlwaysConnects committing firstNode honestBlock ∧
    ∃ chain, chain = (run committing (.initial committing genesisBlock)
        [submit firstBlock .none, submit forwardBlock .none, submit honestBlock .none]).chain ∧
      lookupNode chain (blockHashOf ForwardSpend.rules honestBlock) =
        some (.child firstNode honestBlock) ∧
      (nodeStatus committing chain (.child firstNode honestBlock)).validateFailed = true := by
  refine ⟨readsBody, collisionFree_honestBlock, passesChecks_honestBlock,
    alwaysConnects_honestBlock, [firstBlock, forwardBlock, honestBlock].foldl
      (deliver committing) (.initial committing genesisBlock), ?_, by decide +kernel⟩
  have ran : run committing (.initial committing genesisBlock)
      [submit firstBlock .none, submit forwardBlock .none, submit honestBlock .none] = _ :=
    @run_deliver _ _ 1776675700 [firstBlock, forwardBlock, honestBlock] rfl (by decide +kernel)
  rw [ran]

end ModelOS.BlockChain
