import ModelOS.BlockChain.Acceptance
import ModelOS.BlockChain.BountyClaims
import ModelOS.BlockChain.CheckpointCache
import ModelOS.BlockChain.MainChainReport
import ModelOS.Data.ForkChoice

namespace ModelOS.BlockChain

open Data Wire

/-! Over a tree of valid blocks, delivered parents first, the tip follows a fork choice
that looks at each block once. -/

namespace BlockNode

def work (node : BlockNode) : Int :=
  calcWork node.header.bits

theorem work_nonneg (node : BlockNode) : 0 ≤ node.work := by
  rw [work, calcWork]
  split
  · exact Int.le_refl 0
  · next positive => exact Int.ediv_nonneg (by decide) (by omega)

end BlockNode

def tipChoice : ForkChoice BlockNode where
  parent := BlockNode.parent?
  overtakes := overtakes

theorem tipChoice_descends_iff :
    tipChoice.Descends node ancestor ↔ ancestor ∈ node.ancestors := by
  constructor
  · intro descends
    induction descends with
    | refl => exact BlockNode.self_mem_ancestors
    | @tail lower below _ isParent ih =>
      refine BlockNode.mem_ancestors_trans ih ?_
      cases lower with
      | genesis block => cases isParent
      | child parent block =>
        cases isParent
        exact .tail _ BlockNode.self_mem_ancestors
  · intro member
    induction node with
    | genesis block =>
      rw [List.mem_singleton.mp member]
      exact .refl
    | child parent block ih =>
      rcases List.mem_cons.mp member with rfl | below
      · exact .refl
      · exact .head rfl (ih below)

structure Delivery where
  parent : BlockNode
  block : MsgBlock
  flags : BehaviorFlags
  adjustedTime : Nat
  keep : OrphanBlock → Bool

namespace Delivery

def node (delivery : Delivery) : BlockNode :=
  .child delivery.parent delivery.block

def action (delivery : Delivery) : Action :=
  .processBlock delivery.block delivery.flags delivery.adjustedTime delivery.keep

/-- A checkpoint of the tree that the chain may have reached before the block
arrives. -/
def MayReach (rules : ChainRules) (tree : Finset BlockNode) (delivery : Delivery)
    (checkpointNode : BlockNode) : Prop :=
  checkpointNode ∈ tree ∧ delivery.node ∉ checkpointNode.ancestors ∧
    ∃ checkpoint ∈ rules.checkpoints, checkpointNode.hash rules.sha256d = checkpoint.hash

structure Valid (rules : ChainRules) (tree : Finset BlockNode) (delivery : Delivery) : Prop where
  linked : delivery.block.msgHeader.blockHeader.prevBlock = delivery.parent.hash rules.sha256d
  sane : checkBlockSanity rules delivery.block delivery.adjustedTime delivery.flags = .ok ()
  checkpoint : ∀ chain checkpointNode,
    lookupNode chain (delivery.parent.hash rules.sha256d) = some delivery.parent →
    delivery.MayReach rules tree checkpointNode →
      checkPreviousCheckpoint rules chain delivery.block delivery.flags checkpointNode = .ok ()
  context : ∀ checkpointNode : Option BlockNode,
    (∀ node, checkpointNode = some node → delivery.MayReach rules tree node) →
      checkBlockContext rules delivery.block delivery.parent delivery.flags
        (.ok checkpointNode) = .ok ()
  connects : AlwaysConnects rules delivery.parent delivery.block

end Delivery

/-- A finite tree of blocks on top of the genesis block.  Blocks are told apart by
their hashes, and those at the height of a checkpoint are that checkpoint. -/
structure BlockTree (rules : ChainRules) (genesis : MsgBlock) (tree : Finset BlockNode) : Prop where
  root : .genesis genesis ∈ tree
  onlyRoot : ∀ block, .genesis block ∈ tree → block = genesis
  parents : ∀ parent block, .child parent block ∈ tree → parent ∈ tree
  hashes : Set.InjOn (BlockNode.hash rules.sha256d) (tree : Set BlockNode)
  checkpoints : ∀ checkpoint ∈ rules.checkpoints, 0 ≤ checkpoint.height ∧
    ∀ node ∈ tree, node.height = checkpoint.height → node.hash rules.sha256d = checkpoint.hash

/-- All blocks of the tree but the genesis block are delivered, each once and after
its parent. -/
structure DeliveryOrder (genesis : MsgBlock) (tree : Finset BlockNode)
    (deliveries : List Delivery) : Prop where
  all : ∀ node, node ∈ tree ↔ node = .genesis genesis ∨ node ∈ deliveries.map Delivery.node
  once : (deliveries.map Delivery.node).Nodup
  parentsFirst : deliveries.Pairwise fun earlier later =>
    earlier.parent ≠ later.node

/-- The block is ahead of every block that is not among its ancestors, by at least
half of the lesser of the two works. -/
def ClearlyLeads (tree : Finset BlockNode) (leader : BlockNode) : Prop :=
  ∀ node ∈ tree, node ∉ leader.ancestors → node.workSum < leader.workSum ∧
      min leader.work node.work / 2 ≤ leader.workSum - node.workSum

section Converge

variable {rules : ChainRules} {genesis : MsgBlock} {tree : Finset BlockNode}
  {delivered : List BlockNode} {state : ChainState} {delivery : Delivery}

/-- The state after the listed blocks have been delivered. -/
structure Grown (rules : ChainRules) (delivered : List BlockNode) (state : ChainState) : Prop where
  welcoming : Welcoming rules state.chain
  checkpoint : CheckpointInvariant rules state.chain
  pool : state.orphans = []
  known : ∀ node, Known rules state.chain node ↔ node ∈ delivered

theorem Welcoming.findPreviousCheckpoint {chain : Chain} (welcoming : Welcoming rules chain) :
    Welcoming rules (findPreviousCheckpoint rules chain).1 := by
  obtain ⟨checkpointNode, nextCheckpoint, moved⟩ := @findPreviousCheckpoint_chain rules chain
  rw [moved]
  exact ⟨welcoming.invariant.checkpoints _ _, welcoming.tree.checkpoints _ _,
    welcoming.clean, welcoming.connects⟩

theorem shouldChangeTip_of_clearlyLeads
    (ahead : node.workSum < leader.workSum)
    (clearly : min leader.work node.work / 2 ≤ leader.workSum - node.workSum) :
    overtakes node leader = true ∧ overtakes leader node = false := by
  constructor
  · rw [overtakes, shouldChangeTip, if_neg (by omega)]
    simp only [decide_eq_true_eq]
    simp only [BlockNode.work] at clearly
    rw [Int.shiftRight_eq_div_pow]
    split
    · omega
    · omega
  · rw [overtakes, shouldChangeTip, if_pos (by omega)]

theorem tipChoice_leads
    (leads : ClearlyLeads tree leader) (members : ∀ node ∈ blocks, node ∈ tree) :
    tipChoice.Leads blocks leader := by
  refine ⟨?_, ?_, ?_⟩
  · intro node member apart
    rw [tipChoice_descends_iff] at apart
    obtain ⟨ahead, clearly⟩ := leads node (members node member) apart
    exact (shouldChangeTip_of_clearlyLeads ahead clearly).1
  · intro node member apart
    rw [tipChoice_descends_iff] at apart
    obtain ⟨ahead, clearly⟩ := leads node (members node member) apart
    exact (shouldChangeTip_of_clearlyLeads ahead clearly).2
  · intro node member isChild
    cases node with
    | genesis block => cases isChild
    | child parent block =>
      cases isChild
      have ahead := (leads _ (members _ member) BlockNode.child_not_mem_ancestors).1
      have nonneg := (BlockNode.child leader block).work_nonneg
      simp only [BlockNode.workSum, BlockNode.work, BlockNode.header,
        BlockNode.block] at ahead nonneg
      omega

theorem Grown.mayReach (grown : Grown rules delivered state)
    (within : ∀ node ∈ delivered, node ∈ tree) (isNew : delivery.node ∉ delivered)
    (reached : IsCheckpoint rules state.chain node) :
    delivery.MayReach rules tree node := by
  obtain ⟨known, isCheckpoint⟩ := reached
  refine ⟨within node ((grown.known node).mp known), ?_, isCheckpoint⟩
  intro below
  exact isNew ((grown.known _).mp (grown.welcoming.tree.ancestors_known known below))

/-- The lookup of the latest checkpoint changes nothing that a delivery depends
on, and finds a checkpoint that the block passes. -/
theorem Grown.findPreviousCheckpoint (grown : Grown rules delivered state)
    (isTree : BlockTree rules genesis tree)
    (within : ∀ node ∈ delivered, node ∈ tree) (isNew : delivery.node ∉ delivered) :
    Grown rules delivered ⟨(findPreviousCheckpoint rules state.chain).1, state.orphans⟩ ∧
      ∃ checkpointNode, (findPreviousCheckpoint rules state.chain).2 = .ok checkpointNode ∧
        ∀ node, checkpointNode = some node → delivery.MayReach rules tree node := by
  have agrees : AgreesWithCheckpoints rules state.chain := by
    intro checkpoint member
    obtain ⟨nonneg, agree⟩ := isTree.checkpoints checkpoint member
    exact ⟨nonneg, fun node known => agree node (within node ((grown.known node).mp known))⟩
  obtain ⟨cached, checkpointNode, looked, reached⟩ :=
    findPreviousCheckpoint_reached grown.welcoming.tree grown.checkpoint agrees
  refine ⟨⟨grown.welcoming.findPreviousCheckpoint, cached, grown.pool, ?_⟩,
    checkpointNode, looked, fun node same => grown.mayReach within isNew (reached node same)⟩
  intro node
  rw [← grown.known node]
  obtain ⟨_, _, moved⟩ := @findPreviousCheckpoint_chain rules state.chain
  rw [moved]
  rfl

theorem known_iff_of_sameNodesBut (isNew : chain.index (blockHashOf rules block) = none)
    (nodes : SameNodesBut (blockHashOf rules block) chain after)
    (known : Known rules after (.child parent block)) :
    Known rules after node ↔ node = .child parent block ∨ Known rules chain node := by
  rcases eq_or_ne (node.hash rules.sha256d) (blockHashOf rules block) with
    same | distinct
  · constructor
    · intro nodeKnown
      exact .inl (nodeKnown.eq_of_hash_eq known same)
    · rintro (rfl | earlier)
      · exact known
      · exact absurd same (earlier.hash_ne isNew)
  · rw [Known, nodes _ distinct]
    constructor
    · exact .inr
    · rintro (rfl | earlier)
      · exact absurd rfl distinct
      · exact earlier

theorem Joined.tip_eq_step
    (joined : Joined rules chain parent block after isMainChain)
    (clean : Clean rules chain parent) :
    after.tip = tipChoice.step chain.tip (.child parent block) := by
  rw [ForkChoice.step]
  cases joined with
  | extended atTip tip => exact tip.trans (if_pos (.inl (congrArg some atTip))).symm
  | stayed apart behind tip =>
    refine tip.trans (if_neg ?_).symm
    rintro (isChild | ahead)
    · exact apart (Option.some.inj isChild)
    · exact Bool.false_ne_true (behind.symm.trans ahead)
  | blocked _ _ unclean => exact absurd clean unclean
  | reorganized _ ahead _ tip => exact tip.trans (if_pos (.inr ahead)).symm

theorem Grown.index_eq_none (grown : Grown rules delivered state)
    (isTree : BlockTree rules genesis tree)
    (within : ∀ node ∈ delivered, node ∈ tree) (member : delivery.node ∈ tree)
    (isNew : delivery.node ∉ delivered) :
    state.chain.index (blockHashOf rules delivery.block) = none := by
  rw [index_eq_none_iff]
  cases looked : lookupNode state.chain (blockHashOf rules delivery.block) with
  | none => rfl
  | some node =>
    have earlier := (grown.known node).mp (grown.welcoming.tree.known looked)
    have same := isTree.hashes (within node earlier) member
      (grown.welcoming.tree.hash _ node looked)
    exact absurd (same ▸ earlier) isNew

theorem Grown.maybeAcceptBlock (grown : Grown rules delivered state)
    (isTree : BlockTree rules genesis tree)
    (within : ∀ node ∈ delivered, node ∈ tree) (valid : delivery.Valid rules tree)
    (inOrder : SpendsInOrder rules delivery.block) (member : delivery.node ∈ tree)
    (parentMember : delivery.parent ∈ delivered) (isNew : delivery.node ∉ delivered) :
    ∃ after isMainChain, maybeAcceptBlock rules state.chain delivery.block
        delivery.flags delivery.flags.fastAdd = (after, .ok isMainChain) ∧
      Grown rules (delivery.node :: delivered) ⟨after, []⟩ ∧
      after.tip = tipChoice.step state.chain.tip delivery.node := by
  obtain ⟨invariant, tree, clean, connects⟩ := grown.welcoming
  have parentKnown := (grown.known _).mpr parentMember
  have found : lookupNode state.chain
      delivery.block.msgHeader.blockHeader.prevBlock = some delivery.parent := by
    rw [valid.linked]
    exact parentKnown
  have unseen := grown.index_eq_none isTree within member isNew
  obtain ⟨moved, checkpointNode, looked, reaches⟩ :=
    grown.findPreviousCheckpoint isTree within isNew
  have context : checkBlockContext rules delivery.block delivery.parent delivery.flags
      (BlockChain.findPreviousCheckpoint rules state.chain).2 = .ok () := by
    rw [looked]
    exact valid.context checkpointNode reaches
  have sane := sane_of_checkBlockSanity valid.sane
  obtain ⟨after, isMainChain, accepted⟩ := @maybeAcceptBlock_eq_ok rules state.chain
    delivery.parent delivery.block delivery.flags grown.welcoming
    delivery.flags.fastAdd rfl unseen found sane inOrder context valid.connects
  have connectable : delivery.flags.fastAdd = true →
      delivery.block.msgHeader.blockHeader.prevBlock = state.chain.tip.hash rules.sha256d →
      Connectable rules state.chain.tip delivery.block := by
    intro _ atTip
    have isTip := parentKnown.eq_of_hash_eq tree.tip (valid.linked.symm.trans atTip)
    rw [← isTip] at atTip ⊢
    have passes := valid.connects.passes (isTip ▸ invariant.utxos)
    exact connectable_of_passes sane (inOrder _ atTip passes) passes
  obtain ⟨_, _, acceptedChain, holds, _⟩ := @maybeAcceptBlock_spec rules state.chain
    delivery.block delivery.flags invariant delivery.flags.fastAdd unseen sane inOrder id
    connectable
  obtain ⟨_, _, acceptedTree, treeHolds, nodes, _, joins⟩ := @maybeAcceptBlock_tree rules
    state.chain delivery.block tree delivery.flags delivery.flags.fastAdd unseen
  rw [accepted] at acceptedChain acceptedTree
  cases acceptedChain
  cases acceptedTree
  obtain ⟨checkpoint, parent, isParent, known, kept, joined⟩ := joins isMainChain rfl
  obtain rfl := Option.some.inj (found.symm.trans isParent)
  have knownAfter : ∀ node, Known rules after node ↔ node ∈ delivery.node :: delivered := by
    intro node
    rw [List.mem_cons, ← grown.known node]
    exact known_iff_of_sameNodesBut unseen nodes known
  refine ⟨after, isMainChain, accepted, ⟨⟨holds, treeHolds, ?_, ?_⟩, ?_, rfl, knownAfter⟩,
    joined.tip_eq_step (clean _ parentKnown)⟩
  · intro node nodeKnown
    rcases List.mem_cons.mp ((knownAfter node).mp nodeKnown) with rfl | earlier
    · exact kept.own.mpr (clean _ parentKnown)
    · have knownBefore := (grown.known node).mpr earlier
      exact (kept.clean node knownBefore).mpr (clean node knownBefore)
  · intro parent block nodeKnown
    rcases List.mem_cons.mp ((knownAfter _).mp nodeKnown) with same | earlier
    · obtain ⟨rfl, rfl⟩ := BlockNode.child.inj same
      exact valid.connects
    · exact connects parent block ((grown.known _).mpr earlier)
  · refine moved.checkpoint.of_known checkpoint ?_
    intro node nodeKnown
    exact (knownAfter node).mpr (.tail _ ((moved.known node).mp nodeKnown))

theorem Grown.step (grown : Grown rules delivered state) (isTree : BlockTree rules genesis tree)
    (within : ∀ node ∈ delivered, node ∈ tree) (valid : delivery.Valid rules tree)
    (inOrder : SpendsInOrder rules delivery.block) (member : delivery.node ∈ tree)
    (parentMember : delivery.parent ∈ delivered) (isNew : delivery.node ∉ delivered) :
    Grown rules (delivery.node :: delivered) (step rules state delivery.action) ∧
      (step rules state delivery.action).chain.tip =
        tipChoice.step state.chain.tip delivery.node := by
  obtain ⟨moved, checkpointNode, looked, reaches⟩ :=
    grown.findPreviousCheckpoint isTree within isNew
  have unseen := grown.index_eq_none isTree within member isNew
  have parentKnown := (moved.known _).mpr parentMember
  have passes : checkCheckpoint rules state.chain delivery.block delivery.flags = .ok () := by
    rw [checkCheckpoint, looked]
    cases checkpointNode with
    | none => rfl
    | some node => exact valid.checkpoint _ node parentKnown (reaches node rfl)
  have admissible : Admissible rules state delivery.block delivery.flags delivery.adjustedTime := by
    refine ⟨⟨?_, ?_⟩, valid.sane, passes⟩
    · rw [blockExists, unseen]
      rfl
    · rw [grown.pool]
      rfl
  have parentExists : blockExists state.chain
      delivery.block.msgHeader.blockHeader.prevBlock = true := by
    rw [valid.linked, blockExists, ← Option.isSome_map]
    exact Option.isSome_of_eq_some ((grown.known _).mpr parentMember)
  obtain ⟨after, isMainChain, accepted, grows, tip⟩ :=
    moved.maybeAcceptBlock isTree within valid inOrder member parentMember isNew
  have ended := @processBlock_of_accepted rules delivery.flags state delivery.block
    delivery.adjustedTime delivery.keep admissible parentExists after isMainChain accepted
  rw [grown.pool, serveOrphans_nil] at ended
  have sameTip : (BlockChain.findPreviousCheckpoint rules state.chain).1.tip = state.chain.tip := by
    obtain ⟨_, _, same⟩ := @findPreviousCheckpoint_chain rules state.chain
    rw [same]
  rw [sameTip] at tip
  have stepped : BlockChain.step rules state delivery.action = ⟨after, []⟩ :=
    congrArg Prod.fst ended
  rw [stepped]
  exact ⟨grows, tip⟩

theorem Grown.run {deliveries : List Delivery} (grown : Grown rules delivered state)
    (isTree : BlockTree rules genesis tree) (within : ∀ node ∈ delivered, node ∈ tree)
    (valid : ∀ delivery ∈ deliveries, delivery.Valid rules tree)
    (inOrder : ∀ delivery ∈ deliveries, SpendsInOrder rules delivery.block)
    (members : ∀ delivery ∈ deliveries, delivery.node ∈ tree)
    (arrives : tipChoice.Arrives delivered (deliveries.map Delivery.node)) :
    (run rules state (deliveries.map Delivery.action)).chain.tip =
      tipChoice.run state.chain.tip (deliveries.map Delivery.node) := by
  induction deliveries generalizing delivered state with
  | nil => rfl
  | cons delivery rest ih =>
    obtain ⟨⟨parent, parentMember, isParent⟩, isNew, arrives⟩ := arrives
    obtain rfl : delivery.parent = parent := Option.some.inj isParent
    have member := members delivery (.head _)
    obtain ⟨grows, tip⟩ := grown.step isTree within (valid delivery (.head _))
      (inOrder delivery (.head _)) member parentMember isNew
    have others := ih grows (List.forall_mem_cons.mpr ⟨member, within⟩)
      (fun other mem => valid other (.tail _ mem)) (fun other mem => inOrder other (.tail _ mem))
      (fun other mem => members other (.tail _ mem)) arrives
    rw [tip] at others
    exact others

theorem grown_initial (rules : ChainRules) (genesis : MsgBlock) :
    Grown rules [.genesis genesis] (.initial rules genesis) := by
  have invariant := (stateInvariant_initial rules genesis).chain
  have tree := (treeState_initial rules genesis).tree
  have known : ∀ node, Known rules (ChainState.initial rules genesis).chain node ↔
      node ∈ [BlockNode.genesis genesis] := by
    intro node
    rw [List.mem_singleton]
    constructor
    · intro isKnown
      by_cases same : node.hash rules.sha256d = (BlockNode.genesis genesis).hash rules.sha256d
      · exact isKnown.eq_of_hash_eq tree.tip same
      · simp only [Known, ChainState.initial, Chain.initial, lookupNode,
          Function.update_of_ne same] at isKnown
        cases isKnown
    · rintro rfl
      exact tree.tip
  refine ⟨⟨invariant, tree, ?_, ?_⟩, ⟨by rintro _ ⟨⟩, by rintro _ ⟨⟩⟩, rfl, known⟩
  · intro node isKnown
    rw [List.mem_singleton.mp ((known node).mp isKnown)]
    exact tree.clean_tip
  · intro parent block isKnown
    cases List.mem_singleton.mp ((known _).mp isKnown)

theorem arrives_of_parentsFirst {deliveries : List Delivery}
    (parents : ∀ delivery ∈ deliveries, delivery.parent ∈ delivered ∨
      delivery.parent ∈ deliveries.map Delivery.node)
    (isNew : ∀ delivery ∈ deliveries, delivery.node ∉ delivered)
    (once : (deliveries.map Delivery.node).Nodup)
    (parentsFirst : deliveries.Pairwise fun earlier later =>
      earlier.parent ≠ later.node) :
    tipChoice.Arrives delivered (deliveries.map Delivery.node) := by
  induction deliveries generalizing delivered with
  | nil => trivial
  | cons delivery rest ih =>
    obtain ⟨before, parentsFirst⟩ := List.pairwise_cons.mp parentsFirst
    obtain ⟨distinct, once⟩ := List.nodup_cons.mp once
    have parentMember : delivery.parent ∈ delivered := by
      refine (parents delivery (.head _)).resolve_right ?_
      intro later
      rcases List.mem_cons.mp later with own | other
      · have self : delivery.node ∈ delivery.parent.ancestors := by
          rw [← own]
          exact BlockNode.self_mem_ancestors
        exact BlockNode.child_not_mem_ancestors self
      · obtain ⟨later, member, same⟩ := List.mem_map.mp other
        exact before later member same.symm
    refine ⟨⟨delivery.parent, parentMember, rfl⟩, isNew delivery (.head _),
      ih ?_ ?_ once parentsFirst⟩
    · intro other member
      rcases parents other (.tail _ member) with earlier | later
      · exact .inl (.tail _ earlier)
      · rcases List.mem_cons.mp later with first | later
        · exact .inl (List.mem_cons.mpr (.inl first))
        · exact .inr later
    · intro other member present
      rcases List.mem_cons.mp present with same | earlier
      · exact distinct (same ▸ List.mem_map_of_mem member)
      · exact isNew other (.tail _ member) earlier

/-- Whatever the order of delivery, the block that clearly leads ends up as the
tip, where no transaction spends an output of itself or of a later one of its block. -/
theorem tip_eq_of_clearlyLeads (rules : ChainRules) (genesis : MsgBlock)
    (tree : Finset BlockNode) (isTree : BlockTree rules genesis tree)
    (deliveries : List Delivery) (order : DeliveryOrder genesis tree deliveries)
    (valid : ∀ delivery ∈ deliveries, delivery.Valid rules tree)
    (inOrder : ∀ delivery ∈ deliveries, Ledger.InOrder (transfersOf rules delivery.node))
    (leader : BlockNode) (member : leader ∈ tree) (leads : ClearlyLeads tree leader) :
    (run rules (.initial rules genesis) (deliveries.map Delivery.action)).chain.tip = leader := by
  have members : ∀ delivery ∈ deliveries, delivery.node ∈ tree := by
    intro delivery mem
    exact (order.all _).mpr (.inr (List.mem_map_of_mem mem))
  have within : ∀ node ∈ [BlockNode.genesis genesis], node ∈ tree := by
    intro node mem
    rw [List.mem_singleton.mp mem]
    exact isTree.root
  have arrives : tipChoice.Arrives [.genesis genesis] (deliveries.map Delivery.node) := by
    refine arrives_of_parentsFirst ?_ ?_ order.once order.parentsFirst
    · intro delivery mem
      rw [List.mem_singleton]
      exact (order.all _).mp (isTree.parents _ _ (members delivery mem))
    · intro delivery mem present
      cases List.mem_singleton.mp present
  rw [(grown_initial rules genesis).run isTree within valid
    (fun delivery mem => spendsInOrder_of_inOrder (inOrder delivery mem)) members arrives]
  refine ForkChoice.run_eq_of_leads rfl arrives ?_ (tipChoice_leads leads ?_)
  · exact List.mem_cons.mpr ((order.all leader).mp member)
  · intro node mem
    exact (order.all node).mpr (List.mem_cons.mp mem)

end Converge

namespace SimNetForks

open SimNetExample (genesisBlock genesisHash firstBlock firstNode coinbase)

theorem readsInputs (sha256d : Bytes → Hash) : ReadsInputs { rules with sha256d } :=
  ⟨fun _ _ _ _ _ => rfl, fun _ _ _ _ _ => rfl, fun _ _ _ _ => rfl⟩

def otherTopNode : BlockNode := .child otherNode otherTop

def delivery (parent : BlockNode) (block : MsgBlock) : Delivery :=
  ⟨parent, block, .none, 1776675700, fun _ => true⟩

def deliveries : List Delivery :=
  [delivery (.genesis genesisBlock) firstBlock,
    delivery (.genesis genesisBlock) otherBlock, delivery otherNode otherTop]

def treeOf (deliveries : List Delivery) : Finset BlockNode :=
  insert (.genesis genesisBlock) (deliveries.map Delivery.node).toFinset

theorem deliveryOrder {deliveries : List Delivery}
    (once : (deliveries.map Delivery.node).Nodup)
    (parentsFirst : deliveries.Pairwise fun earlier later => earlier.parent ≠ later.node) :
    DeliveryOrder genesisBlock (treeOf deliveries) deliveries :=
  ⟨fun node => by rw [treeOf, Finset.mem_insert, List.mem_toFinset], once, parentsFirst⟩

theorem blockTree_of_noCheckpoints {rules : ChainRules} {deliveries : List Delivery}
    (noCheckpoints : rules.checkpoints = [])
    (parents : ∀ delivery ∈ deliveries, delivery.parent ∈ treeOf deliveries)
    (hashes : ∀ node ∈ treeOf deliveries, ∀ other ∈ treeOf deliveries,
      node.hash rules.sha256d = other.hash rules.sha256d → node = other) :
    BlockTree rules genesisBlock (treeOf deliveries) where
  root := Finset.mem_insert_self _ _
  onlyRoot := by
    intro block member
    rcases Finset.mem_insert.mp member with root | delivered
    · exact BlockNode.genesis.inj root
    · obtain ⟨_, _, same⟩ := List.mem_map.mp (List.mem_toFinset.mp delivered)
      cases same
  parents := by
    intro parent block member
    rcases Finset.mem_insert.mp member with root | delivered
    · cases root
    · obtain ⟨delivery, listed, same⟩ := List.mem_map.mp (List.mem_toFinset.mp delivered)
      obtain ⟨rfl, _⟩ := BlockNode.child.inj same
      exact parents delivery listed
  hashes := fun node member other otherMember => hashes node member other otherMember
  checkpoints := by
    rw [noCheckpoints]
    rintro _ ⟨⟩

/-- On a network without checkpoints it is enough that a block passes the checks in
the absence of one. -/
theorem valid_delivery {rules : ChainRules} (noCheckpoints : rules.checkpoints = [])
    (reads : ReadsInputs rules) (accepted : AcceptedChain rules (.child parent block))
    (checked : checkBlockSanity rules block 1776675700 .none = .ok () ∧
      checkBlockContext rules block parent .none (.ok none) = .ok () ∧
      block.msgHeader.blockHeader.prevBlock = parent.hash rules.sha256d) :
    (delivery parent block).Valid rules tree := by
  obtain ⟨sane, context, linked⟩ := checked
  have never : ∀ node, ¬ (delivery parent block).MayReach rules tree node := by
    rintro node ⟨_, _, _, member, _⟩
    rw [noCheckpoints] at member
    cases member
  refine ⟨linked, sane, fun _ node _ reach => absurd reach (never node), ?_,
    accepted.passes.alwaysConnects reads⟩
  intro checkpointNode reaches
  cases checkpointNode with
  | none => exact context
  | some node => exact absurd (reaches node rfl) (never node)

theorem valid_deliveries : ∀ delivery ∈ deliveries,
    delivery.Valid rules (treeOf deliveries) := by
  have first : AcceptedChain rules firstNode :=
    @AcceptedChain.of_connectChain _ _ 1776675700 (by decide)
  have other : AcceptedChain rules otherTopNode :=
    @AcceptedChain.of_connectChain _ _ 1776675700 (by decide)
  simp only [deliveries, List.forall_mem_cons]
  refine ⟨?_, ?_, ?_, by rintro _ ⟨⟩⟩
  · exact valid_delivery rfl (readsInputs headerHash) first (by decide)
  · exact valid_delivery rfl (readsInputs headerHash) other.below (by decide)
  · exact valid_delivery rfl (readsInputs headerHash) other (by decide)

end SimNetForks

open SimNetForks in
open SimNetExample (genesisBlock) in
theorem tip_eq_of_clearlyLeads_simNet :
    (run SimNetForks.rules (.initial SimNetForks.rules genesisBlock)
      (deliveries.map Delivery.action)).chain.tip = otherTopNode := by
  have leads : ∀ node ∈ treeOf deliveries, node ∉ otherTopNode.ancestors →
      node.workSum < otherTopNode.workSum ∧
        min otherTopNode.work node.work / 2 ≤ otherTopNode.workSum - node.workSum := by
    decide
  exact tip_eq_of_clearlyLeads SimNetForks.rules genesisBlock (treeOf deliveries)
    (blockTree_of_noCheckpoints rfl (by decide) (by decide)) deliveries
    (deliveryOrder (by decide) (by decide)) valid_deliveries (by decide)
    otherTopNode (by decide) leads

namespace ForwardSpend

open SimNetExample (genesisBlock powLimitBits header withHeader)
open SimNetBounties (firstHash firstHeader)
open TwoBlocks (payout coinbase firstTxid)

/-! A block on top of the first one.  Its third transaction spends what the fourth creates, and
the fifth spends the same output, which is why it is there before the third is checked. -/

def pay (spent : Hash) (lockTime : UInt32) : MsgTx where
  version := 1
  txIn := [⟨⟨spent, 0⟩, [], [[0x51], [0xc1]], 0xffffffff⟩]
  txOut := [⟨250000000000, payout⟩]
  lockTime := lockTime

def reward (commitment : Hash) : MsgTx where
  version := 1
  txIn := [⟨⟨.zero 32, 0xffffffff⟩, [0x52, 0], [List.replicate 32 0], 0xffffffff⟩]
  txOut := [⟨250000000000, payout⟩, ⟨0, witnessMagicBytes ++ commitment.bytes⟩]
  lockTime := 0

def payTxid : Hash :=
  .ofNat 32 0x0390a6706f8b1ab7991f42781887e5fb838670905bf370cae49a62eae9f40e73

def lateTxid : Hash :=
  .ofNat 32 0x0e7e2c6379cc8d7a38e3c4f975cfc1183af84fd164ff893236a44267d1225e8c

def commitment : Hash :=
  .ofNat 32 0x69e47b029e8da89abed73db7715fb0b4ac67bd1d50b7e2e27048452c3baa9f2c

def body : List MsgTx :=
  [reward commitment, pay firstTxid 0, pay lateTxid 0, pay payTxid 0, pay lateTxid 1]

def root : Hash :=
  .ofNat 32 0x0149dc610813d693ad0d4e966ecc1f771f9cb005e67075835016d66d1dc2a595

def forwardHeader : BlockHeader :=
  header firstHash root 1776675602 powLimitBits

def forwardBlock : MsgBlock :=
  withHeader forwardHeader body

def honestCommitment : Hash :=
  .ofNat 32 0x9569a85d2d6ddd79134d43486070f429da85aaacf2eb66ddcb3495668cd32eb9

def honestRoot : Hash :=
  .ofNat 32 0x31641757c1ecc6bbc146b6b9e840f5783810d8d48460ada491dcdab8105c3683

def honestHeader : BlockHeader :=
  header firstHash honestRoot 1776675603 powLimitBits

/-- A block whose payment is also in the other one, in front of what cannot be connected. -/
def honestBlock : MsgBlock :=
  withHeader honestHeader [reward honestCommitment, pay firstTxid 0]

/-- What SHA-256 (twice) gives for the transactions with and without witnesses, for the nodes
of the Merkle trees over them, for the commitments and for the headers. -/
def hashes : List (Bytes × Hash) :=
  let txids : List Hash := [
    .ofNat 32 0x149c267e0249e49f2f9e688fc4d5242c3a836b1084eb7cd11595c5298818b30d, payTxid,
    .ofNat 32 0xd320db7002d9bc169ca48071c2f90914f5e10cc20dfc33be1af6a7ad01bbadbb, lateTxid,
    .ofNat 32 0xc72b4f6ede8968448f6db872942d292394b194182c3e66c7634aa744bd7ccac6]
  let wtxids : List Hash := [
    .ofNat 32 0xc2cf31f47a842b54dd4a16019a1584bedd51a280c3b3b39da5af2500bc55a765,
    .ofNat 32 0x71ef9bbe7ac88f41d76d869280a82df0eb7a0a8ad0d1e499a7bae9c02a1712fb,
    .ofNat 32 0xbb58c55b36b9e7f5980644988e4baf42234f716dc4c8b4d14bfd5b6ac744895b,
    .ofNat 32 0xd9d04fd2b528783cdff196a9a75ae01d2e788c2d8ce315c429fb0ab82beb5af2]
  let rows : List Hash := [
    .ofNat 32 0x0802bc486098ed8ecc66966129883eac7a2c5d37aba520bdb41526ad0078f88d,
    .ofNat 32 0xe9790fa487b5433386b9a57831198d2d5aab606578b98ed8d8e28012c5ee109b,
    .ofNat 32 0x1fd4328a31f8c504c28d06fce3bf353fc1216e85d88b29ea132bd065c906a0d9,
    .ofNat 32 0x54eef70f27a0c7d85fb5d1a861a0d00dbdc7fa8512bddeaa524a66301a30f3cc,
    .ofNat 32 0x97ad19f9529778c1393614a9b10be01b6d1584e289cbf15435fa49c772c43b27, root]
  let witnessRows : List Hash := [
    .ofNat 32 0x6f7f2dfc7f147070f9bde8a5b702eba59956b7ff684baa315dcc9a782f949882,
    .ofNat 32 0x7017a3c1a7e3ee0d82e13075289b3b5870ece0a93fef015f1a481db15f222f44,
    .ofNat 32 0xb88e6b48d01f2296942aac39dffdec90545c6c951a820f078bbdbe7f2e26c58d,
    .ofNat 32 0xd524aa7fbf2fb2cce75dc96a825505f1cb66c65a9581a605722e8d11851e8724,
    .ofNat 32 0x3fc5a12532a9316c257eba8993b75e2a063154690f7dae5c2b4992c8ac8e311a,
    .ofNat 32 0xd86a77fc21cdee31fe4279db63ac82eec818b26b0e874495327efde6b7a9bfc7]
  let nodes (leaves rows : List Hash) : List (Bytes × Hash) :=
    let below := leaves ++ leaves.drop 4 ++ rows.take 3 ++ (rows.drop 2).take 1 ++ rows.drop 3
    rows.zipIdx.map fun (hash, index) =>
      ((below.getD (2 * index) hash).bytes ++ (below.getD (2 * index + 1) hash).bytes, hash)
  let honestTxid : Hash :=
    .ofNat 32 0x0a41f2243ece3a306866ada533b7fb4526a8291a9baa7f1522d1d18921be6663
  (body.map MsgTx.serializeNoWitness).zip txids ++
    (body.tail.map MsgTx.serialize).zip wtxids ++
    nodes txids rows ++ nodes (.zero 32 :: wtxids) witnessRows ++
    [((witnessRows.getD 5 root).bytes ++ List.replicate 32 0, commitment),
      (writeBlockHeader forwardHeader,
        .ofNat 32 0x47f830982f8b43bfddcd3eb42ef0c0efacc1a19929173a6fbf0abd507e165f57),
      ((reward honestCommitment).serializeNoWitness, honestTxid),
      ((reward honestCommitment).serialize,
        .ofNat 32 0xaee1fe57cd27a39049bc402dafe171b14c04b47105812c2e5e56ef7bc7e5b682),
      (honestTxid.bytes ++ payTxid.bytes, honestRoot),
      ((witnessRows.getD 0 root).bytes ++ List.replicate 32 0, honestCommitment),
      (writeBlockHeader honestHeader,
        .ofNat 32 0xf170383617d33afbdcf3932d5e824dc7487920261d48bdde2833ce2868e888f4)]

def rules : ChainRules :=
  SimNetBounties.rules hashes

def firstBlock : MsgBlock :=
  withHeader firstHeader [coinbase 1]

def firstNode : BlockNode :=
  .child (.genesis genesisBlock) firstBlock

def forwardNode : BlockNode :=
  .child firstNode forwardBlock

theorem readsInputs : ReadsInputs rules :=
  ⟨fun _ _ _ _ _ => rfl, fun _ _ _ _ _ => rfl, fun _ _ _ _ => rfl⟩

theorem accepted : AcceptedChain rules forwardNode :=
  @AcceptedChain.of_connectChain _ _ 1776675700 (by decide +kernel)

def deliveries : List Delivery :=
  [SimNetForks.delivery (.genesis genesisBlock) firstBlock,
    SimNetForks.delivery firstNode forwardBlock]

theorem valid_deliveries : ∀ delivery ∈ deliveries,
    delivery.Valid rules (SimNetForks.treeOf deliveries) := by
  simp only [deliveries, List.forall_mem_cons]
  refine ⟨?_, ?_, by rintro _ ⟨⟩⟩
  · exact SimNetForks.valid_delivery rfl readsInputs accepted.below (by decide)
  · exact SimNetForks.valid_delivery rfl readsInputs accepted (by decide +kernel)

end ForwardSpend

open ForwardSpend in
open SimNetExample (genesisBlock) in
/-- Both blocks are valid and the second leads, but the cache cannot connect it. -/
theorem tip_ne_of_clearlyLeads_forward :
    BlockTree ForwardSpend.rules genesisBlock (SimNetForks.treeOf deliveries) ∧
    DeliveryOrder genesisBlock (SimNetForks.treeOf deliveries) deliveries ∧
    (∀ delivery ∈ deliveries,
      delivery.Valid ForwardSpend.rules (SimNetForks.treeOf deliveries)) ∧
    forwardNode ∈ SimNetForks.treeOf deliveries ∧
    ClearlyLeads (SimNetForks.treeOf deliveries) forwardNode ∧
    (run ForwardSpend.rules (.initial ForwardSpend.rules genesisBlock)
      (deliveries.map Delivery.action)).chain.tip = firstNode := by
  have leads : ∀ node ∈ SimNetForks.treeOf deliveries, node ∉ forwardNode.ancestors →
      node.workSum < forwardNode.workSum ∧
        min forwardNode.work node.work / 2 ≤ forwardNode.workSum - node.workSum := by
    decide
  have ran := @run_deliver ForwardSpend.rules (.initial ForwardSpend.rules genesisBlock) 1776675700
    [firstBlock, forwardBlock] rfl (by decide +kernel)
  have stays : ([firstBlock, forwardBlock].foldl (deliver ForwardSpend.rules)
      (.initial ForwardSpend.rules genesisBlock)).tip = firstNode := by
    decide +kernel
  exact ⟨SimNetForks.blockTree_of_noCheckpoints rfl (by decide) (by decide),
    SimNetForks.deliveryOrder (by decide) (by decide), valid_deliveries,
    by decide, leads, (congrArg (fun state => state.chain.tip) ran).trans stays⟩

end ModelOS.BlockChain
