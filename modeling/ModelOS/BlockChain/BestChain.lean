import ModelOS.BlockChain.ProcessBlock
import ModelOS.BlockChain.Reorganize

namespace ModelOS.BlockChain

open Data Wire ZkPow

section Runs

variable {rules : ChainRules} {chain : Chain} {parent : BlockNode}
  {block : MsgBlock} {flags : BehaviorFlags}

section Connect

variable {entry : IndexEntry}

/-- A new child of the tip is connected after it has been marked valid, or right
before: the two updates commute. -/
private theorem connected_child (invariant : ChainInvariant rules chain)
    (found : chain.index ((BlockNode.child chain.tip block).hash rules.sha256d) = some entry)
    (isNode : entry.node = .child chain.tip block) (connectable : Connectable rules chain.tip block)
    (passes : entry.fastAdded = false → PassesConnect rules chain.tip block) {entries : UtxoEntries}
    (utxos : entries.unspent = utxosOf rules (.child chain.tip block)) :
    ChainInvariant rules (extendTip rules
        (setStatusFlags rules chain (.child chain.tip block) statusValid) block entries) ∧
      SameNodes chain (extendTip rules
        (setStatusFlags rules chain (.child chain.tip block) statusValid) block entries) := by
  have indexed : lookupNode chain ((BlockNode.child chain.tip block).hash rules.sha256d) =
      some (.child chain.tip block) := by
    rw [lookupNode, found, Option.map_some, isNode]
  have marked := invariant.setValid found isNode connectable passes
  have nodes := @lookupNode_setStatusFlags rules chain (.child chain.tip block) statusValid
  refine ⟨marked.extendTip utxos ((nodes _).trans indexed) ?_, nodes⟩
  change (nodeStatus rules (setStatusFlags rules chain (.child chain.tip block)
    statusValid) (.child chain.tip block)).valid = true
  rw [nodeStatus_setStatusFlags_self indexed]
  rfl

theorem connectBestChain_spec (invariant : ChainInvariant rules chain)
    (found : chain.index ((BlockNode.child parent block).hash rules.sha256d) = some entry)
    (isNode : entry.node = .child parent block) (isNew : entry.status = statusDataStored)
    (fastAdded : flags.fastAdd = true → entry.fastAdded = true)
    (connectable : flags.fastAdd = true →
      block.msgHeader.blockHeader.prevBlock = chain.tip.hash rules.sha256d →
        Connectable rules chain.tip block) :
    ∃ after result, connectBestChain rules chain parent block flags = (after, result) ∧
      ChainInvariant rules after ∧ SameNodes chain after := by
  have child := invariant.children _ entry parent block found isNode
  have notValid : (nodeStatus rules chain (.child parent block)).valid = false := by
    simp only [nodeStatus, found, Option.map_some, Option.getD_some, isNew]
    rfl
  rw [connectBestChain]
  dsimp only
  split
  · next extendsTip =>
    have linked : block.msgHeader.blockHeader.prevBlock = chain.tip.hash rules.sha256d := extendsTip
    -- The parent is the tip, since the index has one node for each hash.
    obtain rfl : parent = chain.tip := by
      have known := child.parentIndexed
      rw [← child.linked, linked, invariant.tip] at known
      exact (Option.some.inj known).symm
    rw [notValid, Bool.or_false]
    cases fast : flags.fastAdd with
    | true =>
      have connects := connectable fast linked
      obtain ⟨entries, utxos, connected⟩ := connectTip_eq invariant.utxos linked child.sane connects
      have holds := connected_child invariant found isNode connects (by
          intro notFast
          rw [fastAdded fast] at notFast
          cases notFast)
        utxos
      simp only [if_true, connected, Bool.true_or]
      exact ⟨_, _, rfl, holds⟩
    | false =>
      simp only [Bool.false_eq_true, if_false, Bool.false_or]
      cases checked : checkConnectBlock rules (.child chain.tip block)
          ⟨chain.utxoCache, (BlockNode.child chain.tip block).header.prevBlock⟩ with
      | error error =>
        cases error with
        | rule error =>
          obtain ⟨holds, marked⟩ := @ChainInvariant.setInvalid _ _
            (.child chain.tip block) invariant statusValidateFailed
            fun _ => rfl
          exact ⟨_, _, rfl, holds, marked.nodes⟩
        | assert description => exact ⟨_, _, rfl, invariant, .refl⟩
      | ok view =>
        have passes : PassesConnect rules chain.tip block :=
          ⟨_, view, linked, invariant.utxos, checked⟩
        have connects := child.connectable passes
        obtain ⟨entries, utxos, connected⟩ := @connectTip_eq rules
          (setStatusFlags rules chain (.child chain.tip block) statusValid)
          block invariant.utxos linked child.sane connects
        obtain ⟨holds, nodes⟩ := connected_child invariant found isNode connects
          (fun _ => passes) utxos
        have valid := holds.bestValid chain.tip block (.head _)
        have connected : connectTip rules
            (setStatusFlags rules chain (.child chain.tip block) statusValid)
            (.child chain.tip block) = _ := connected
        simp only [connected, valid, Bool.not_true, Bool.false_eq_true, if_false]
        exact ⟨_, _, rfl, holds, nodes⟩
  · split
    · exact ⟨_, _, rfl, invariant, .refl⟩
    · have indexed : lookupNode chain ((BlockNode.child parent block).hash rules.sha256d) =
          some (.child parent block) := by
        rw [lookupNode, found, Option.map_some, isNode]
      obtain ⟨marked, detach, attach, nodes, holds, statuses, plan⟩ :=
        getReorganizeNodes_spec invariant parent indexed
      obtain ⟨after, result, reorganized, holds, same, _⟩ := reorganizeChain_spec holds plan
      simp only [nodes, reorganized]
      cases result with
      | error error => exact ⟨_, _, rfl, holds, statuses.nodes.trans same⟩
      | ok value => exact ⟨_, _, rfl, holds, statuses.nodes.trans same⟩

end Connect

theorem ChainInvariant.checkpoints (invariant : ChainInvariant rules chain)
    (checkpointNode : Option BlockNode) (nextCheckpoint : Option Checkpoint) :
    ChainInvariant rules { chain with checkpointNode, nextCheckpoint } where
  hash := invariant.hash
  root := invariant.root
  children := by
    intro hash entry parent block found isNode
    exact { invariant.children hash entry parent block found isNode with }
  validated := invariant.validated
  tip := invariant.tip
  bestValid := invariant.bestValid
  utxos := invariant.utxos
  journal := invariant.journal

theorem index_addNode_self :
    (addNode rules chain block entry).index (blockHashOf rules block) = some entry :=
  Function.update_self ..

theorem index_addNode_of_ne {hash : Hash}
    (distinct : hash ≠ blockHashOf rules block) :
    (addNode rules chain block entry).index hash = chain.index hash :=
  Function.update_of_ne distinct ..

theorem index_addNode {hash : Hash}
    (lookup : (addNode rules chain block entry).index hash = some found) :
    hash = blockHashOf rules block ∧ found = entry ∨ chain.index hash = some found := by
  rcases eq_or_ne hash (blockHashOf rules block) with rfl | distinct
  · rw [index_addNode_self] at lookup
    exact .inl ⟨rfl, (Option.some.inj lookup).symm⟩
  · rw [index_addNode_of_ne distinct] at lookup
    exact .inr lookup

theorem ChainInvariant.addNode (invariant : ChainInvariant rules chain)
    {fastAdded : Bool} {checkpoint : Option BlockNode}
    (isNew : chain.index (blockHashOf rules block) = none)
    (known : lookupNode chain block.msgHeader.blockHeader.prevBlock = some parent)
    (sane : SaneTransactions rules block.transactions) (inOrder : SpendsInOrder rules block)
    (context : fastAdded = false → PassesContext rules parent block checkpoint) :
    ChainInvariant rules (addNode rules chain block
      ⟨.child parent block, statusDataStored, fastAdded, checkpoint⟩) := by
  obtain ⟨parentEntry, parentFound, isParent⟩ := exists_entry_of_lookupNode known
  have linked := invariant.hash _ parentEntry parentFound
  rw [isParent] at linked
  have others : ∀ hash entry, chain.index hash = some entry → hash ≠ blockHashOf rules block := by
    rintro hash entry found rfl
    rw [isNew] at found
    cases found
  have keeps : ∀ hash node, lookupNode chain hash = some node →
      lookupNode (BlockChain.addNode rules chain block
        ⟨.child parent block, statusDataStored, fastAdded, checkpoint⟩) hash = some node := by
    intro hash node indexed
    obtain ⟨entry, found, _⟩ := exists_entry_of_lookupNode indexed
    rw [lookupNode, index_addNode_of_ne (others hash entry found)]
    exact indexed
  refine ⟨⟨?_, ?_, ?_, ?_, keeps _ _ invariant.tip⟩, ?_, invariant.utxos, invariant.journal⟩
  · intro hash entry lookup
    rcases index_addNode lookup with ⟨rfl, rfl⟩ | found
    · rfl
    · exact invariant.hash hash entry found
  · intro hash entry lookup
    rcases index_addNode lookup with ⟨rfl, rfl⟩ | found
    · have root := invariant.root _ parentEntry parentFound
      rw [isParent] at root
      exact root
    · exact invariant.root hash entry found
  · intro hash entry grandparent below lookup isNode
    rcases index_addNode lookup with ⟨rfl, rfl⟩ | found
    · obtain ⟨rfl, rfl⟩ := BlockNode.child.inj isNode
      exact ⟨linked.symm, keeps _ _ (linked ▸ known), sane, inOrder, context⟩
    · have child := invariant.children hash entry grandparent below found isNode
      exact { child with parentIndexed := keeps _ _ child.parentIndexed }
  · intro hash entry lookup valid
    rcases index_addNode lookup with ⟨rfl, rfl⟩ | found
    · cases valid
    · exact invariant.validated hash entry found valid
  · intro grandparent below member
    have indexed := invariant.ancestors_indexed invariant.tip member
    obtain ⟨entry, found, _⟩ := exists_entry_of_lookupNode indexed
    rw [nodeStatus, index_addNode_of_ne (others _ entry found)]
    exact invariant.bestValid grandparent below member

theorem previousCheckpoint_of_checkBlockContext
    (checked : checkBlockContext rules block parent flags previousCheckpoint = .ok ()) :
    previousCheckpoint = .ok previousCheckpoint.toOption.join := by
  simp only [checkBlockContext, checkBlockHeaderContext, bind_eq_ok] at checked
  obtain ⟨_, ⟨_, _, checkpoint, found, _⟩, _⟩ := checked
  rw [found]
  rfl

theorem passesContext_of_checkBlockContext
    (checked : checkBlockContext rules block parent flags previousCheckpoint =
      .ok ()) (full : flags.fastAdd = false) :
    PassesContext rules parent block previousCheckpoint.toOption.join := by
  have same : checkBlockContext rules block parent ⟨flags.fastAdd, false⟩
      previousCheckpoint = .ok () := checked
  rw [full, previousCheckpoint_of_checkBlockContext checked] at same
  exact same

/-- Accepting a new block keeps the invariant, provided that a call with fast
add only serves blocks of its own kind. -/
theorem maybeAcceptBlock_spec (invariant : ChainInvariant rules chain)
    {fastAdded : Bool} (isNew : chain.index (blockHashOf rules block) = none)
    (sane : SaneTransactions rules block.transactions) (inOrder : SpendsInOrder rules block)
    (own : flags.fastAdd = true → fastAdded = true) (connectable : flags.fastAdd = true →
      block.msgHeader.blockHeader.prevBlock = chain.tip.hash rules.sha256d →
        Connectable rules chain.tip block) :
    ∃ after result, maybeAcceptBlock rules chain block flags fastAdded = (after, result) ∧
      ChainInvariant rules after ∧ SameNodesBut (blockHashOf rules block) chain after := by
  unfold maybeAcceptBlock
  dsimp only
  split
  · exact ⟨_, _, rfl, invariant, fun _ _ => rfl⟩
  · next prevNode known =>
    split
    · exact ⟨_, _, rfl, invariant, fun _ _ => rfl⟩
    · obtain ⟨checkpointNode, nextCheckpoint, looked⟩ :=
        @afterContextLookup_chain rules flags chain block.msgHeader.blockHeader prevNode
      rw [looked]
      have invariant := invariant.checkpoints checkpointNode nextCheckpoint
      split
      · exact ⟨_, _, rfl, invariant, fun _ _ => rfl⟩
      · next checked =>
        have context : fastAdded = false → PassesContext rules prevNode block
            (findPreviousCheckpoint rules chain).2.toOption.join := by
          intro notFast
          apply passesContext_of_checkBlockContext checked
          cases fast : flags.fastAdd with
          | true => exact (own fast).symm.trans notFast
          | false => rfl
        have added := invariant.addNode isNew known sane inOrder context
        obtain ⟨after, result, connected, holds, nodes⟩ :=
          connectBestChain_spec added index_addNode_self rfl rfl own connectable
        refine ⟨after, result, connected, holds, ?_⟩
        intro other distinct
        rw [nodes other, lookupNode, index_addNode_of_ne distinct]
        rfl

structure PoolInvariant (rules : ChainRules) (chain : Chain)
    (orphans : List OrphanBlock) : Prop where
  distinct : orphans.Pairwise fun first second =>
    blockHashOf rules first.block ≠ blockHashOf rules second.block
  absent : ∀ orphan ∈ orphans, chain.index (blockHashOf rules orphan.block) = none
  sane : ∀ orphan ∈ orphans, SaneTransactions rules orphan.block.transactions

structure StateInvariant (rules : ChainRules) (state : ChainState) : Prop where
  chain : ChainInvariant rules state.chain
  pool : PoolInvariant rules state.chain state.orphans
  inOrder : ∀ orphan ∈ state.orphans, SpendsInOrder rules orphan.block

variable {orphans : List OrphanBlock}

theorem index_eq_none_iff {hash : Hash} : chain.index hash = none ↔ lookupNode chain hash = none :=
  Option.map_eq_none_iff.symm

section

variable (pool : PoolInvariant rules chain orphans)
include pool

theorem PoolInvariant.sublist (fewer : remaining.Sublist orphans) :
    PoolInvariant rules chain remaining :=
  ⟨pool.distinct.sublist fewer, fun orphan member => pool.absent orphan (fewer.subset member),
    fun orphan member => pool.sane orphan (fewer.subset member)⟩

theorem PoolInvariant.of_sameNodesBut
    {hash : Hash} (nodes : SameNodesBut hash chain after)
    (apart : ∀ orphan ∈ orphans, blockHashOf rules orphan.block ≠ hash) :
    PoolInvariant rules after orphans := by
  refine ⟨pool.distinct, ?_, pool.sane⟩
  intro orphan member
  rw [index_eq_none_iff, nodes _ (apart orphan member), ← index_eq_none_iff]
  exact pool.absent orphan member

theorem PoolInvariant.served
    (nodes : SameNodesBut (blockHashOf rules orphan.block) chain after) :
    PoolInvariant rules after (removeOrphanBlock rules orphans orphan) := by
  apply (pool.sublist List.filter_sublist).of_sameNodesBut nodes
  intro other kept
  simpa using (List.mem_filter.mp kept).2

end

theorem serve_spec (full : flags.fastAdd = false) (member : orphan ∈ orphans)
    (ended : maybeAcceptBlock rules chain orphan.block flags orphan.fastAdded = (after, result))
    (invariant : StateInvariant rules ⟨chain, orphans⟩) :
    StateInvariant rules ⟨after, removeOrphanBlock rules orphans orphan⟩ := by
  obtain ⟨_, _, accepted, holds, nodes⟩ := @maybeAcceptBlock_spec rules chain
    orphan.block flags invariant.chain orphan.fastAdded (invariant.pool.absent orphan member)
    (invariant.pool.sane orphan member) (invariant.inOrder orphan member)
    (by simp [full]) (by simp [full])
  rw [ended] at accepted
  cases accepted
  exact ⟨holds, invariant.pool.served nodes,
    fun other kept => invariant.inOrder other (List.mem_filter.mp kept).1⟩

/-- A block may be added fast when no pooled block waits for it and, if it
extends the tip, its transactions connect to the utxo set. -/
structure FastAddAllowed (rules : ChainRules) (state : ChainState) (block : MsgBlock) : Prop where
  alone : ∀ orphan ∈ state.orphans, dependsOn (blockHashOf rules block) orphan = false
  connects : block.msgHeader.blockHeader.prevBlock = state.chain.tip.hash rules.sha256d →
    Ledger.ConnectsAll (transfersOf rules (.child state.chain.tip block))
      state.chain.utxoCache.unspent

theorem PoolInvariant.checkpoints (pool : PoolInvariant rules chain orphans)
    (checkpointNode : Option BlockNode) (nextCheckpoint : Option Checkpoint) :
    PoolInvariant rules { chain with checkpointNode, nextCheckpoint } orphans :=
  ⟨pool.distinct, pool.absent, pool.sane⟩

theorem PoolInvariant.addOrphanBlock (pool : PoolInvariant rules chain orphans)
    (keep : OrphanBlock → Bool) {orphan : OrphanBlock}
    (isNew : chain.index (blockHashOf rules orphan.block) = none)
    (apart : ∀ other ∈ orphans, blockHashOf rules other.block ≠ blockHashOf rules orphan.block)
    (sane : SaneTransactions rules orphan.block.transactions) :
    PoolInvariant rules chain (addOrphanBlock keep orphans orphan) := by
  have kept := pool.sublist (List.filter_sublist (p := keep))
  refine ⟨List.pairwise_append.mpr ⟨kept.distinct, List.pairwise_singleton .., ?_⟩, ?_, ?_⟩
  · intro first member second last
    rw [List.mem_singleton.mp last]
    exact apart first (List.mem_filter.mp member).1
  · intro other member
    rcases List.mem_append.mp member with earlier | last
    · exact kept.absent other earlier
    · rw [List.mem_singleton.mp last]
      exact isNew
  · intro other member
    rcases List.mem_append.mp member with earlier | last
    · exact kept.sane other earlier
    · rw [List.mem_singleton.mp last]
      exact sane

variable {state : ChainState}

namespace StateInvariant

section

variable (invariant : StateInvariant rules state)
include invariant

theorem looked :
    StateInvariant rules { state with chain := (findPreviousCheckpoint rules state.chain).1 } := by
  obtain ⟨checkpointNode, nextCheckpoint, moved⟩ := @findPreviousCheckpoint_chain rules state.chain
  rw [moved]
  exact ⟨invariant.chain.checkpoints checkpointNode nextCheckpoint,
    invariant.pool.checkpoints checkpointNode nextCheckpoint, invariant.inOrder⟩

theorem pooled (inOrder : SpendsInOrder rules block)
    (admissible : Admissible rules state block flags adjustedTime) :
    StateInvariant rules ⟨(findPreviousCheckpoint rules state.chain).1,
      addOrphanBlock keep state.orphans ⟨block, flags.fastAdd⟩⟩ := by
  refine ⟨invariant.looked.chain, invariant.looked.pool.addOrphanBlock keep
    admissible.index_findPreviousCheckpoint (isPooled_eq_false_iff.mp admissible.notPooled)
    (sane_of_checkBlockSanity admissible.sane), ?_⟩
  intro orphan member
  rcases List.mem_append.mp member with earlier | last
  · exact invariant.inOrder orphan (List.mem_filter.mp earlier).1
  · rw [List.mem_singleton.mp last]
    exact inOrder

theorem accepted (inOrder : SpendsInOrder rules block)
    (allowed : flags.fastAdd = true → FastAddAllowed rules state block)
    (admissible : Admissible rules state block flags adjustedTime)
    (ended : maybeAcceptBlock rules (findPreviousCheckpoint rules state.chain).1 block flags
      flags.fastAdd = (after, result)) : StateInvariant rules ⟨after, state.orphans⟩ := by
  obtain ⟨checkpointNode, nextCheckpoint, moved⟩ := @findPreviousCheckpoint_chain rules state.chain
  have connectable : flags.fastAdd = true → block.msgHeader.blockHeader.prevBlock =
        (findPreviousCheckpoint rules state.chain).1.tip.hash rules.sha256d →
      Connectable rules (findPreviousCheckpoint rules state.chain).1.tip block := by
    intro fast linked
    rw [Connectable, ← invariant.looked.chain.utxos]
    rw [moved] at linked ⊢
    exact (allowed fast).connects linked
  obtain ⟨_, _, accepted, holds, nodes⟩ := @maybeAcceptBlock_spec rules _ block flags
    invariant.looked.chain flags.fastAdd admissible.index_findPreviousCheckpoint
    (sane_of_checkBlockSanity admissible.sane) inOrder id connectable
  rw [ended] at accepted
  cases accepted
  exact ⟨holds, invariant.looked.pool.of_sameNodesBut nodes
    (isPooled_eq_false_iff.mp admissible.notPooled), invariant.inOrder⟩

end

end StateInvariant

theorem processBlock_spec
    (invariant : StateInvariant rules state) (inOrder : SpendsInOrder rules block)
    (allowed : flags.fastAdd = true → FastAddAllowed rules state block) : StateInvariant rules
      (processBlock rules state block flags adjustedTime keep).1 := by
  refine processBlock_induction invariant invariant.looked (invariant.pooled inOrder)
    (invariant.accepted inOrder allowed) ?_
  intro after holds
  cases fast : flags.fastAdd with
  | true =>
    rw [processOrphans_of_no_dependents (allowed fast).alone]
    exact holds
  | false => exact processOrphans_induction (serve_spec fast) holds

inductive Action
  | processBlock (block : MsgBlock) (flags : BehaviorFlags) (adjustedTime : Nat)
      (keep : OrphanBlock → Bool)
  | flushUtxoCache

def step (rules : ChainRules) (state : ChainState) : Action → ChainState
  | .processBlock block flags adjustedTime keep =>
    (processBlock rules state block flags adjustedTime keep).1
  | .flushUtxoCache =>
    { state with
      chain := { state.chain with utxoCache := state.chain.utxoCache.flush } }

def run (rules : ChainRules) (state : ChainState) (actions : List Action) : ChainState :=
  actions.foldl (step rules) state

def Action.Allowed (rules : ChainRules) (state : ChainState) : Action → Prop
  | .processBlock block flags _ _ =>
    SpendsInOrder rules block ∧ (flags.fastAdd = true → FastAddAllowed rules state block)
  | .flushUtxoCache => True

/-- Every action is allowed in the state in which it is taken. -/
def AllowedRun (rules : ChainRules) : ChainState → List Action → Prop
  | _, [] => True
  | state, action :: rest =>
    action.Allowed rules state ∧ AllowedRun rules (step rules state action) rest

/-- Every block of the best chain whose own call was not a fast add has passed
the whole of both checks against its parent. -/
def BestChainValidated (rules : ChainRules) (state : ChainState) : Prop :=
  ∀ parent block, BlockNode.child parent block ∈ state.chain.tip.ancestors →
    ∃ entry, state.chain.index ((BlockNode.child parent block).hash rules.sha256d) = some entry ∧
      entry.node = .child parent block ∧
      (entry.fastAdded = false → PassesContext rules parent block entry.checkpoint ∧
        PassesConnect rules parent block)

def ChainState.initial (rules : ChainRules) (genesis : MsgBlock) : ChainState :=
  ⟨Chain.initial rules genesis, []⟩

theorem stateInvariant_initial (rules : ChainRules) (genesis : MsgBlock) :
    StateInvariant rules (.initial rules genesis) := by
  have only : ∀ hash entry, (Chain.initial rules genesis).index hash = some entry →
      hash = (BlockNode.genesis genesis).hash rules.sha256d ∧ entry.node = .genesis genesis := by
    intro hash entry found
    rcases eq_or_ne hash ((BlockNode.genesis genesis).hash rules.sha256d) with
      rfl | distinct
    · simp only [Chain.initial, Function.update_self] at found
      cases found
      exact ⟨rfl, rfl⟩
    · simp only [Chain.initial, Function.update_of_ne distinct] at found
      cases found
  have noChild : ∀ parent block, BlockNode.child parent block ∉
      (Chain.initial rules genesis).tip.ancestors := by
    intro parent block member
    exact BlockNode.noConfusion (List.mem_singleton.mp member)
  refine ⟨⟨⟨?_, ?_, ?_, ?_, ?_⟩, ?_, rfl, ?_⟩, ⟨.nil, ?_, ?_⟩, ?_⟩
  · intro hash entry found
    obtain ⟨rfl, isGenesis⟩ := only hash entry found
    rw [isGenesis]
  · intro hash entry found
    rw [(only hash entry found).2]
    rfl
  · intro hash entry parent block found isNode
    rw [(only hash entry found).2] at isNode
    cases isNode
  · intro hash entry found _ parent block isNode
    rw [(only hash entry found).2] at isNode
    cases isNode
  · simp only [lookupNode, ChainState.initial, Chain.initial, Function.update_self, Option.map_some]
  · intro parent block member
    exact absurd member (noChild parent block)
  · intro parent block member
    exact absurd member (noChild parent block)
  · rintro _ ⟨⟩
  · rintro _ ⟨⟩
  · rintro _ ⟨⟩

theorem step_spec (invariant : StateInvariant rules state)
    {action : Action} (allowed : action.Allowed rules state) :
    StateInvariant rules (step rules state action) := by
  cases action with
  | processBlock block flags adjustedTime keep =>
    exact processBlock_spec invariant allowed.1 allowed.2
  | flushUtxoCache =>
    obtain ⟨chain, pool, inOrder⟩ := invariant
    refine ⟨⟨⟨chain.hash, chain.root, ?_, chain.validated, chain.tip⟩,
      chain.bestValid, (unspent_flush _).trans chain.utxos, chain.journal⟩,
      ⟨pool.distinct, pool.absent, pool.sane⟩, inOrder⟩
    intro hash entry parent block found isNode
    exact { chain.children hash entry parent block found isNode with }

theorem run_spec (invariant : StateInvariant rules state)
    (allowed : AllowedRun rules state actions) :
    StateInvariant rules (run rules state actions) := by
  induction actions generalizing state with
  | nil => exact invariant
  | cons action rest ih =>
    exact ih (step_spec invariant allowed.1) allowed.2

theorem StateInvariant.bestChainValidated
    (invariant : StateInvariant rules state) : BestChainValidated rules state := by
  intro parent block member
  have chain := invariant.chain
  have indexed := chain.ancestors_indexed chain.tip member
  obtain ⟨entry, found, isNode⟩ := exists_entry_of_lookupNode indexed
  have valid := chain.bestValid parent block member
  simp only [nodeStatus, found, Option.map_some, Option.getD_some] at valid
  refine ⟨entry, found, isNode, ?_⟩
  intro full
  exact ⟨(chain.children _ entry parent block found isNode).context full,
    (chain.validated _ entry found valid parent block isNode).2 full⟩

theorem PassesContext.bits
    (passes : PassesContext rules parent block checkpoint) :
    rules.calcNextRequiredDifficulty parent block.msgHeader.blockHeader.timestamp =
      .ok block.msgHeader.blockHeader.bits := by
  simp only [PassesContext, checkBlockContext, checkBlockHeaderContext,
    checkHeaderBeforeCheckpoint, BehaviorFlags.none, Bool.false_eq_true, if_false,
    bind_eq_ok, require_eq_ok] at passes
  obtain ⟨_, ⟨_, ⟨expected, required, _, bits, _⟩, _⟩, _⟩ := passes
  rw [required, bits]

end Runs

namespace SimNetExample

def genesisHash : Hash :=
  .ofNat 32 0x32587e2447b0432f2cce83b08c81b3bebb1ecaffefbddbe9a8516adf27abd078

def firstHash : Hash :=
  .ofNat 32 0xefefb09aa08de93d5635b211a014c9f022e0182c886a34158427e98f79249eea

def secondHash : Hash :=
  .ofNat 32 0x41771ce5dd9d871365758e448ba9e29d61c40845acc1842a750271ebc694c77b

def wrongHash : Hash :=
  .ofNat 32 0xa2d5ac4359ba3042f6d6c3fb12594d128727ba630faca9a9834f19cdc85bd7ff

def firstTxHash : Hash :=
  .ofNat 32 0x104ce0066b7dc641f6f02989e9c002ef16af157b8f62a755fe91f1f7762b7a20

def secondTxHash : Hash :=
  .ofNat 32 0x5bfa0a6e8c9e2a31668a8b54f6f55245e67cfa979dbfa187001830c88e08a2db

def powLimitBits : UInt32 := 0x1e010000

def coinbase (height : UInt8) : MsgTx where
  version := 1
  txIn := [⟨⟨.zero 32, 0xffffffff⟩, [0x50 + height, 0], [], 0xffffffff⟩]
  txOut := [⟨250000000000, 0x51 :: 0x20 :: List.replicate 32 0x11⟩]
  lockTime := 0

def header (prevBlock merkleRoot : Hash) (timestamp bits : UInt32) : BlockHeader where
  version := 1
  prevBlock := prevBlock
  merkleRoot := merkleRoot
  timestamp := timestamp
  bits := bits
  proofCommitment := .zero 32

def genesisHeader : BlockHeader :=
  header (.zero 32) (.ofNat 32 0xc1751637382fbd52f5e4e26dc9f38d8ccc2ab216dfed38bd489623f1c6592f30)
    1776675600 powLimitBits

def withHeader (header : BlockHeader) (transactions : List MsgTx) : MsgBlock where
  msgHeader := ⟨some ⟨.zero 32, .zero publicDataSize, []⟩, header⟩
  auxPow := none
  transactions := transactions

/-- The transactions of the genesis block are never read. -/
def genesisBlock : MsgBlock :=
  withHeader genesisHeader []

def firstBlock : MsgBlock :=
  withHeader (header genesisHash firstTxHash 1776675601 powLimitBits) [coinbase 1]

def secondBlock : MsgBlock :=
  withHeader (header firstHash secondTxHash 1776675602 powLimitBits) [coinbase 2]

def wrongBlock : MsgBlock :=
  withHeader (header firstHash secondTxHash 1776675602 0x1d010000) [coinbase 2]

def headerHash (message : Bytes) : Hash :=
  if message = writeBlockHeader genesisHeader then genesisHash
  else if message = writeBlockHeader firstBlock.msgHeader.blockHeader then firstHash
  else if message = writeBlockHeader secondBlock.msgHeader.blockHeader then
    secondHash
  else if message = writeBlockHeader wrongBlock.msgHeader.blockHeader then wrongHash
  else .zero 32

def txHash (tx : MsgTx) : Hash :=
  if tx = coinbase 1 then firstTxHash
  else if tx = coinbase 2 then secondTxHash
  else .zero 32

def rules : ChainRules where
  txHash := txHash
  isUnspendable := fun script => script.head? = some 0x6a
  sha256d := headerHash
  blake3 := fun _ => .zero 32
  verifier := ⟨fun _ _ _ => (0, ""), fun _ _ _ _ => (0, "")⟩
  network := 0x4d444c53
  isSimNet := true
  genesisHash := genesisHash
  checkpoints := []
  coinbaseMaturity := 100
  checkBlockHeaderSanity := fun block _ _ =>
    require (compactToBig block.msgHeader.blockHeader.bits ≤ compactToBig powLimitBits)
      (ruleError .errUnexpectedDifficulty "")
  getBlockVsize := fun _ => 205
  checkTransactionOutputs := fun _ => .ok ()
  checkTransactionPrevOuts := fun _ => .ok ()
  calcMerkleRoot := fun transactions =>
    (transactions.head?.map txHash).getD (.zero 32)
  calcEasiestDifficulty := fun bits _ => bits
  calcNextRequiredDifficulty := fun _ _ => .ok powLimitBits
  checkSerializedHeight := fun tx height =>
    require ((tx.txIn.head?.bind fun txIn => txIn.signatureScript.head?).map
        UInt8.toNat = some (80 + height.toNatClampNeg)) (ruleError .errMissingCoinbaseHeight "")
  validateWitnessCommitment := fun _ => .ok ()
  checkInferenceGoTx := fun _ _ => .ok 0
  checkInferenceBountySpends := fun _ _ _ => .ok ()
  calcBlockSubsidy := fun _ => 250000000000
  sequenceLockActive := fun _ _ _ => .ok true
  checkBlockScripts := fun _ _ => .ok ()

def fastAdd : BehaviorFlags := ⟨true, false⟩

def firstNode : BlockNode := .child (.genesis genesisBlock) firstBlock

def submit (block : MsgBlock) (flags : BehaviorFlags) : Action :=
  .processBlock block flags 1776675700 fun _ => true

theorem firstBlock_isNew : blockExists (Chain.initial rules genesisBlock)
    (blockHashOf rules firstBlock) = false := by
  decide

theorem firstBlock_parentKnown : blockExists (Chain.initial rules genesisBlock)
    firstBlock.msgHeader.blockHeader.prevBlock = true := by
  decide

theorem run_child_first
    (childNew : blockExists (Chain.initial rules genesisBlock) (blockHashOf rules child) = false)
    (childSane : checkBlockSanity rules child 1776675700 .none = .ok ())
    (unknown : blockExists (Chain.initial rules genesisBlock)
      child.msgHeader.blockHeader.prevBlock = false)
    (distinct : blockHashOf rules child ≠ blockHashOf rules firstBlock)
    (sane : checkBlockSanity rules firstBlock 1776675700 flags = .ok ())
    (accepted : (maybeAcceptBlock rules (.initial rules genesisBlock) firstBlock
      flags flags.fastAdd).2 = .ok true)
    (waits : dependsOn (blockHashOf rules firstBlock) ⟨child, false⟩ = true) :
    run rules (.initial rules genesisBlock) [submit child .none, submit firstBlock flags] =
      ⟨(maybeAcceptBlock rules (maybeAcceptBlock rules
        (.initial rules genesisBlock) firstBlock flags flags.fastAdd).1 child
        flags false).1, []⟩ := by
  have first : step rules (.initial rules genesisBlock) (submit child .none) =
      ⟨.initial rules genesisBlock, [⟨child, false⟩]⟩ := congrArg Prod.fst (processBlock_of_orphan
      (.of_noCheckpoints rfl childNew rfl childSane) unknown)
  have admissible : Admissible rules
      ⟨.initial rules genesisBlock, [⟨child, false⟩]⟩ firstBlock flags 1776675700 :=
    .of_noCheckpoints rfl firstBlock_isNew (by simpa [isPooled] using distinct) sane
  have second := @processBlock_of_accepted rules flags _ firstBlock 1776675700
    (fun _ => true) admissible firstBlock_parentKnown _ true (Prod.ext rfl accepted)
  rw [run, List.foldl_cons, List.foldl_cons, List.foldl_nil, first]
  refine (congrArg Prod.fst second).trans ?_
  rw [fst_serveOrphans, processOrphans_singleton waits]
  rfl

end SimNetExample

end ModelOS.BlockChain
