import ModelOS.BlockChain.Convergence
import ModelOS.BlockChain.ReconsiderBlock

namespace ModelOS.BlockChain

open Data Wire ZkPow

/-- The states that allowed calls, invalidations and reconsiderations lead to, in
whatever order the index is walked. -/
inductive Managed (rules : ChainRules) (genesis : MsgBlock) : ChainState → Prop
  | initial : Managed rules genesis (.initial rules genesis)
  | step {state : ChainState} (before : Managed rules genesis state) {action : Action}
      (allowed : action.Allowed rules state) : Managed rules genesis (step rules state action)
  | invalidated {state : ChainState} (before : Managed rules genesis state)
      {walk : List BlockNode} (walks : Walks rules state.chain walk) (hash : Hash) :
      Managed rules genesis { state with chain := (invalidateBlock rules state.chain walk hash).1 }
  | reconsidered {state : ChainState} (before : Managed rules genesis state)
      {walk : List BlockNode} (walks : Walks rules state.chain walk) (hash : Hash) :
      Managed rules genesis { state with chain := (reconsiderBlock rules state.chain walk hash).1 }

structure ManagedInvariant (rules : ChainRules) (state : ChainState) : Prop where
  node : NodeInvariant rules state.chain
  marks : Justified rules state.chain
  pool : PoolInvariant rules state.chain state.orphans
  inOrder : ∀ orphan ∈ state.orphans, SpendsInOrder rules orphan.block

section Runs

variable {rules : ChainRules} {genesis : MsgBlock} {state : ChainState}

theorem PoolInvariant.of_sameNodes
    (pool : PoolInvariant rules chain orphans) (nodes : SameNodes chain after) :
    PoolInvariant rules after orphans := by
  refine ⟨pool.distinct, ?_, pool.sane⟩
  intro orphan member
  rw [index_eq_none_iff, nodes, ← index_eq_none_iff]
  exact pool.absent orphan member

theorem justified_initial (rules : ChainRules) (genesis : MsgBlock) :
    Justified rules (Chain.initial rules genesis) := by
  intro node known marked
  rw [Known, lookupNode] at known
  rw [nodeStatus] at marked
  simp only [Chain.initial] at known marked
  rcases eq_or_ne (node.hash rules.sha256d) ((BlockNode.genesis genesis).hash rules.sha256d)
    with same | distinct
  · rw [same, Function.update_self] at marked
    cases marked
  · rw [Function.update_of_ne distinct] at known
    cases known

theorem ManagedInvariant.step (holds : ManagedInvariant rules state) {action : Action}
    (allowed : action.Allowed rules state) : ManagedInvariant rules (step rules state action) := by
  have ledger := step_spec ⟨holds.node.ledger, holds.pool, holds.inOrder⟩ allowed
  cases action with
  | processBlock block flags adjustedTime keep =>
    obtain ⟨after, onward⟩ := @processBlock_tree rules flags block adjustedTime keep
      state ⟨holds.node.tree, holds.pool⟩
    exact ⟨⟨ledger.chain, after.tree⟩, onward.marks holds.marks, ledger.pool, ledger.inOrder⟩
  | flushUtxoCache =>
    exact ⟨⟨ledger.chain, holds.node.tree.congr rfl rfl⟩,
      (Grows.of_index ⟨rfl, rfl, rfl⟩).justified holds.marks, ledger.pool, ledger.inOrder⟩

theorem Managed.invariant (managed : Managed rules genesis state) :
    ManagedInvariant rules state := by
  induction managed with
  | initial =>
    have ledger := stateInvariant_initial rules genesis
    exact ⟨⟨ledger.chain, (treeState_initial rules genesis).tree⟩,
      justified_initial rules genesis, ledger.pool, ledger.inOrder⟩
  | step before allowed ih => exact ih.step allowed
  | invalidated before walks hash ih =>
    obtain ⟨after, result, ended, holds, grows, _⟩ := invalidateBlock_spec ih.node walks hash
    rw [ended]
    exact ⟨holds, grows.justified ih.marks, ih.pool.of_sameNodes grows.nodes, ih.inOrder⟩
  | reconsidered before walks hash ih =>
    obtain ⟨after, result, ended, holds, marks, nodes, _⟩ :=
      reconsiderBlock_spec ih.node ih.marks walks hash
    rw [ended]
    exact ⟨holds, marks, ih.pool.of_sameNodes nodes, ih.inOrder⟩

theorem Managed.deliver
    (noCheckpoints : rules.checkpoints = []) (managed : Managed rules genesis ⟨chain, []⟩)
    (delivers : deliverable rules adjustedTime chain blocks = true)
    (inOrder : ∀ block ∈ blocks, SpendsInOrder rules block) :
    Managed rules genesis ⟨blocks.foldl (BlockChain.deliver rules) chain, []⟩ := by
  refine deliver_induction noCheckpoints (fun state block member managed => ?_) managed delivers
  exact @Managed.step rules genesis _ managed
    (.processBlock block .none adjustedTime fun _ => true)
    ⟨inOrder block member, fun fast => Bool.noConfusion fast⟩

theorem hash_of_lookupNode_deliver (tree : TreeInvariant rules chain)
    (delivers : deliverable rules adjustedTime chain blocks = true) {hash : Hash}
    (found : lookupNode (blocks.foldl (BlockChain.deliver rules) chain) hash = some node) :
    hash ∈ blocks.map (blockHashOf rules) ∨ lookupNode chain hash = some node := by
  induction blocks generalizing chain with
  | nil => exact .inr found
  | cons block rest ih =>
    simp only [deliverable, Bool.and_eq_true, Bool.not_eq_true', decide_eq_true_eq] at delivers
    obtain ⟨⟨⟨isNew, _⟩, _⟩, delivers⟩ := delivers
    have absent : chain.index (blockHashOf rules block) = none := by
      simpa [blockExists] using isNew
    obtain ⟨after, _, accepted, holds, nodes, _⟩ := @maybeAcceptBlock_tree rules chain
      block tree .none false absent
    have moved : BlockChain.deliver rules chain block = after := congrArg Prod.fst accepted
    rw [← moved] at holds nodes
    rcases ih holds delivers found with later | before
    · exact .inl (.tail _ later)
    · by_cases own : hash = blockHashOf rules block
      · exact .inl (List.mem_cons.mpr (.inl own))
      · rw [nodes hash own] at before
        exact .inr before

theorem walks_of_hashes
    (known : ∀ node ∈ walk, Known rules chain node)
    (hashes : ∀ hash node, lookupNode chain hash = some node →
      hash ∈ walk.map (BlockNode.hash rules.sha256d)) : Walks rules chain walk := by
  intro node
  constructor
  · exact known node
  · intro isKnown
    obtain ⟨other, member, same⟩ := List.mem_map.mp (hashes _ node isKnown)
    rw [isKnown.eq_of_hash_eq (known other member) same.symm]
    exact member

end Runs

namespace SimNetVerdicts

open SimNetExample (genesisBlock firstBlock firstHash firstNode secondBlock secondHash
  secondTxHash powLimitBits coinbase withHeader header)
open SimNetForks (otherBlock otherHash otherNode thirdTxHash)

def thirdHash : Hash :=
  .ofNat 32 0xea879ad11f62a31182a5d8be18a0723227e812a89bb800140ae66eca81d04be4

def sideHash : Hash :=
  .ofNat 32 0x89430ce26948b8acc397d29c0fc8b013330272642acb0c7fdcae94957af2dc68

def lateHash : Hash :=
  .ofNat 32 0xe18a781a1da6bc68ea851d0306804f4099dbfceb8003e6b66f8899813af351b8

def thirdBlock : MsgBlock :=
  withHeader (header secondHash thirdTxHash 1776675603 powLimitBits) [coinbase 3]

def sideBlock : MsgBlock :=
  withHeader (header firstHash secondTxHash 1776675603 powLimitBits) [coinbase 2]

def lateBlock : MsgBlock :=
  withHeader (header firstHash secondTxHash 1776675604 powLimitBits) [coinbase 2]

/-- The headers with the hashes that SHA-256 (twice) gives them. -/
def hashedHeaders : List (BlockHeader × Hash) :=
  SimNetForks.hashedHeaders ++
    [(thirdBlock, thirdHash), (sideBlock, sideHash), (lateBlock, lateHash)].map
      fun (block, hash) => (block.msgHeader.blockHeader, hash)

def headerHash (message : Bytes) : Hash :=
  ((hashedHeaders.find? fun (header, _) => writeBlockHeader header = message).map
    Prod.snd).getD (.zero 32)

def rules : ChainRules :=
  { SimNetForks.rules with sha256d := headerHash }

def blocks : List MsgBlock :=
  [firstBlock, secondBlock, thirdBlock, sideBlock, lateBlock, otherBlock]

@[irreducible] def crowded : Chain := blocks.foldl (deliver rules) (.initial rules genesisBlock)

def secondNode : BlockNode := .child firstNode secondBlock

def thirdNode : BlockNode := .child secondNode thirdBlock

def sideNode : BlockNode := .child firstNode sideBlock

def lateNode : BlockNode := .child firstNode lateBlock

def walk : List BlockNode :=
  [.genesis genesisBlock, firstNode, secondNode, thirdNode, sideNode, lateNode, otherNode]

theorem deliverable_blocks :
    deliverable rules 1776675700 (.initial rules genesisBlock) blocks = true ∧
      walk.map (BlockNode.hash rules.sha256d) =
        (BlockNode.genesis genesisBlock).hash rules.sha256d :: blocks.map (blockHashOf rules) ∧
      ∀ node ∈ walk, lookupNode crowded (node.hash rules.sha256d) = some node := by
  decide +kernel

theorem managed_crowded : Managed rules genesisBlock ⟨crowded, []⟩ := by
  rw [crowded]
  have inOrder : ∀ block ∈ blocks,
      Ledger.InOrder (transfersOf rules (.child firstNode block)) := by
    decide
  exact Managed.deliver rfl .initial deliverable_blocks.1
    fun block member => spendsInOrder_of_inOrder (inOrder block member)

theorem readsInputs : ReadsInputs rules :=
  SimNetForks.readsInputs headerHash

theorem walks_crowded : Walks rules crowded walk := by
  obtain ⟨delivered, hashes, known⟩ := deliverable_blocks
  refine walks_of_hashes known ?_
  · intro hash node found
    rw [crowded] at found
    rw [hashes]
    rcases hash_of_lookupNode_deliver (treeState_initial rules genesisBlock).tree
      delivered found with later | initial
    · exact .tail _ later
    · rw [lookupNode] at initial
      by_cases own : hash = (BlockNode.genesis genesisBlock).hash rules.sha256d
      · exact List.mem_cons.mpr (.inl own)
      · simp [ChainState.initial, Chain.initial, Function.update_of_ne own] at initial

@[irreducible] def lowered : Chain := (invalidateBlock rules crowded walk firstHash).1

theorem managed_lowered : Managed rules genesisBlock ⟨lowered, []⟩ := by
  rw [lowered]
  exact managed_crowded.invalidated walks_crowded firstHash

theorem walks_lowered : Walks rules lowered walk := by
  obtain ⟨after, _, ended, _, grows, _⟩ := invalidateBlock_spec
    managed_crowded.invariant.node walks_crowded firstHash
  have moved : lowered = after := by
    rw [lowered, ended]
  intro node
  rw [walks_crowded node, Known, Known, moved, grows.nodes]

@[irreducible] def raised : Chain := (reconsiderBlock rules lowered walk firstHash).1

theorem managed_raised : Managed rules genesisBlock ⟨raised, []⟩ := by
  rw [raised]
  exact managed_lowered.reconsidered walks_lowered firstHash

theorem walks_raised : Walks rules raised walk := by
  have holds := managed_lowered.invariant
  obtain ⟨after, _, ended, _, _, nodes, _⟩ := reconsiderBlock_spec holds.node holds.marks
    walks_lowered firstHash
  have moved : raised = after := by
    rw [raised, ended]
  intro node
  rw [walks_lowered node, Known, Known, moved, nodes]

theorem verdicts :
    (((invalidateBlock rules crowded walk otherHash).2 = .ok () ∧
      lookupNode crowded otherHash = some otherNode ∧ otherNode ∉ crowded.tip.ancestors ∧
      (nodeStatus rules crowded otherNode).knownInvalid = false ∧
      ∀ tip ∈ inactiveTips crowded walk, tip.workSum ≤ crowded.tip.workSum) ∧
    (reconsiderBlock rules crowded walk firstHash).2 = .ok () ∧
      lookupNode crowded firstHash = some firstNode ∧
      (nodeStatus rules crowded firstNode).valid = true ∧
      ∀ tip ∈ walk, overtakes crowded.tip tip = false) ∧
    (lookupNode crowded firstHash = some firstNode ∧
      (invalidateBlock rules crowded walk firstHash).2 = .ok () ∧
      (nodeStatus rules lowered lateNode).knownInvalid = false ∧
      lowered.tip = .genesis genesisBlock ∧
      (∀ node ∈ otherNode.ancestors, (nodeStatus rules lowered node).knownInvalid = false) ∧
      lowered.tip.workSum < otherNode.workSum ∧ lateNode ∈ walk ∧ firstNode ∈ lateNode.ancestors) ∧
    lookupNode lowered firstHash = some firstNode ∧
      (reconsiderBlock rules lowered walk firstHash).2 = .ok () ∧ raised.tip = lateNode ∧
      (∀ node ∈ thirdNode.ancestors, (nodeStatus rules raised node).knownInvalid = false) ∧
      overtakes raised.tip thirdNode = true ∧
      thirdNode ∈ inactiveTips raised walk ∧ firstNode ∈ thirdNode.ancestors := by
  decide +kernel

theorem sound_thirdNode : SoundBranch rules thirdNode := by
  have accepted : AcceptedChain rules thirdNode :=
    @AcceptedChain.of_connectChain _ _ 1776675700 (by decide)
  intro parent block member
  exact (accepted.blocks parent block member).2.alwaysConnects readsInputs

end SimNetVerdicts

end ModelOS.BlockChain
