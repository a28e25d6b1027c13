import ModelOS.BlockChain.Reorganize

namespace ModelOS.BlockChain

open Data Wire ZkPow

/-! The tree of known blocks and the best chain in it, without a word about ledgers. -/

/-- The index has this very node under its hash. -/
def Known (rules : ChainRules) (chain : Chain) (node : BlockNode) : Prop :=
  lookupNode chain (node.hash rules.sha256d) = some node

structure TreeInvariant (rules : ChainRules) (chain : Chain) : Prop where
  hash : ∀ hash node, lookupNode chain hash = some node → node.hash rules.sha256d = hash
  root : ∀ hash node, lookupNode chain hash = some node → node.root = chain.tip.root
  linked : ∀ parent block, Known rules chain (.child parent block) →
    block.msgHeader.blockHeader.prevBlock = parent.hash rules.sha256d ∧ Known rules chain parent
  tip : Known rules chain chain.tip
  best : ∀ node ∈ chain.tip.ancestors, (nodeStatus rules chain node).valid = true ∧
      (nodeStatus rules chain node).knownInvalid = false

/-- No block below the node, nor the node itself, is known to be invalid. -/
def Clean (rules : ChainRules) (chain : Chain) (node : BlockNode) : Prop :=
  ∀ ancestor ∈ node.ancestors, (nodeStatus rules chain ancestor).knownInvalid = false

variable {rules : ChainRules} {chain after : Chain} {node other : BlockNode}

theorem Known.eq_of_hash_eq (known : Known rules chain node) (otherKnown : Known rules chain other)
    (same : node.hash rules.sha256d = other.hash rules.sha256d) : node = other := by
  rw [Known, same, otherKnown] at known
  exact (Option.some.inj known).symm

theorem Known.of_sameNodes (known : Known rules chain node)
    (nodes : SameNodes chain after) : Known rules after node :=
  (nodes _).trans known

theorem nodeStatus_congr (index : after.index = chain.index) :
    nodeStatus rules after node = nodeStatus rules chain node := by
  rw [nodeStatus, index]
  rfl

theorem sameNodes_of_index (index : after.index = chain.index) : SameNodes chain after := by
  intro hash
  rw [lookupNode, index]
  rfl

namespace TreeInvariant

variable (invariant : TreeInvariant rules chain)
include invariant

theorem known {hash : Hash}
    (found : lookupNode chain hash = some node) : Known rules chain node := by
  rw [Known, invariant.hash hash node found]
  exact found

theorem ancestors_known (known : Known rules chain node) (member : other ∈ node.ancestors) :
    Known rules chain other := by
  induction node with
  | genesis block =>
    rw [List.mem_singleton.mp member]
    exact known
  | child parent block ih =>
    rcases List.mem_cons.mp member with rfl | below
    · exact known
    · exact ih (invariant.linked parent block known).2 below

theorem clean_tip : Clean rules chain chain.tip :=
  fun ancestor member => (invariant.best ancestor member).2

/-- The tree is kept when the tip becomes another known block, all of whose ancestors are
valid. -/
theorem moveTip (nodes : SameNodes chain after) (tip : Known rules chain after.tip)
    (best : ∀ node ∈ after.tip.ancestors, (nodeStatus rules after node).valid = true ∧
      (nodeStatus rules after node).knownInvalid = false) : TreeInvariant rules after where
  hash hash node found := invariant.hash hash node ((nodes hash).symm.trans found)
  root hash node found := by
    rw [invariant.root hash node ((nodes hash).symm.trans found), invariant.root _ after.tip tip]
  linked parent block known := by
    obtain ⟨linked, parentKnown⟩ := invariant.linked parent block ((nodes _).symm.trans known)
    exact ⟨linked, parentKnown.of_sameNodes nodes⟩
  tip := tip.of_sameNodes nodes
  best := best

theorem congr (index : after.index = chain.index) (tip : after.tip = chain.tip) :
    TreeInvariant rules after := by
  refine invariant.moveTip (sameNodes_of_index index) (tip ▸ invariant.tip) ?_
  intro node member
  rw [nodeStatus_congr index]
  exact invariant.best node (tip ▸ member)

theorem exists_findFork (known : Known rules chain node) :
    ∃ fork, findFork chain node = some fork ∧ fork ∈ chain.tip.ancestors ∧
      fork ∈ node.ancestors := by
  refine BlockChain.exists_findFork ?_
  rw [invariant.root _ node known]
  exact BlockNode.genesis_mem_ancestors

end TreeInvariant

variable {flags : BlockStatus → BlockStatus}

theorem nodeStatus_setStatusFlags_of_ne
    (distinct : other.hash rules.sha256d ≠ node.hash rules.sha256d) :
    nodeStatus rules (setStatusFlags rules chain node flags) other =
      nodeStatus rules chain other := by
  simp only [nodeStatus, setStatusFlags, Function.update_of_ne distinct]

/-- Only statuses off the best chain changed. -/
structure OffChain (rules : ChainRules) (before after : Chain) : Prop where
  nodes : SameNodes before after
  tip : after.tip = before.tip
  best : ∀ node ∈ before.tip.ancestors, nodeStatus rules after node = nodeStatus rules before node

theorem OffChain.refl : OffChain rules chain chain :=
  ⟨.refl, rfl, fun _ _ => rfl⟩

theorem OffChain.trans (first : OffChain rules chain middle)
    (second : OffChain rules middle after) : OffChain rules chain after :=
  ⟨first.nodes.trans second.nodes, second.tip.trans first.tip, fun node member =>
    (second.best node (first.tip ▸ member)).trans (first.best node member)⟩

theorem TreeInvariant.of_offChain (invariant : TreeInvariant rules chain)
    (change : OffChain rules chain after) : TreeInvariant rules after := by
  refine invariant.moveTip change.nodes (change.tip ▸ invariant.tip) ?_
  intro node member
  rw [change.tip] at member
  rw [change.best node member]
  exact invariant.best node member

theorem TreeInvariant.offChain_setStatusFlags (invariant : TreeInvariant rules chain)
    (known : Known rules chain node) (off : node ∉ chain.tip.ancestors)
    (flags : BlockStatus → BlockStatus) :
    OffChain rules chain (setStatusFlags rules chain node flags) := by
  refine ⟨lookupNode_setStatusFlags flags, rfl, ?_⟩
  intro ancestor member
  apply nodeStatus_setStatusFlags_of_ne
  intro same
  have isNode := (invariant.ancestors_known invariant.tip member).eq_of_hash_eq known same
  exact off (isNode ▸ member)

theorem TreeInvariant.offChain_setAllInvalid (invariant : TreeInvariant rules chain)
    {nodes : List BlockNode} (known : ∀ node ∈ nodes, Known rules chain node)
    (off : ∀ node ∈ nodes, node ∉ chain.tip.ancestors) :
    OffChain rules chain (nodes.foldl (fun chain node =>
      setStatusFlags rules chain node statusInvalidAncestor) chain) := by
  induction nodes generalizing chain with
  | nil => exact .refl
  | cons node rest ih =>
    have change := invariant.offChain_setStatusFlags (known node (.head _))
      (off node (.head _)) statusInvalidAncestor
    refine change.trans (ih (invariant.of_offChain change) ?_ ?_)
    · intro node member
      exact (known node (.tail _ member)).of_sameNodes change.nodes
    · intro node member
      rw [change.tip]
      exact off node (.tail _ member)

/-- The same known nodes are clean. -/
def SameClean (rules : ChainRules) (before after : Chain) : Prop :=
  ∀ node, Known rules before node → (Clean rules after node ↔ Clean rules before node)

def BlockStatus.verdict (status : BlockStatus) : Bool × Bool :=
  (status.validateFailed, status.invalidAncestor)

/-- The same nodes are known to be invalid, for the same reasons. -/
def SameInvalid (rules : ChainRules) (before after : Chain) : Prop :=
  ∀ node, (nodeStatus rules after node).verdict = (nodeStatus rules before node).verdict

theorem SameInvalid.refl : SameInvalid rules chain chain :=
  fun _ => rfl

theorem SameInvalid.trans (first : SameInvalid rules chain middle)
    (second : SameInvalid rules middle after) : SameInvalid rules chain after :=
  fun node => (second node).trans (first node)

theorem SameInvalid.knownInvalid (same : SameInvalid rules chain after)
    (node : BlockNode) : (nodeStatus rules after node).knownInvalid =
      (nodeStatus rules chain node).knownInvalid :=
  congrArg (fun verdict : Bool × Bool => verdict.1 || verdict.2) (same node)

theorem SameInvalid.sameClean (same : SameInvalid rules chain after) :
    SameClean rules chain after := by
  intro node _
  simp only [Clean, same.knownInvalid]

theorem knownInvalid_setStatusFlags (keeps : ∀ status : BlockStatus, status.knownInvalid = true →
      (flags status).knownInvalid = true)
    (invalid : (nodeStatus rules chain other).knownInvalid = true) :
    (nodeStatus rules (setStatusFlags rules chain node flags) other).knownInvalid = true := by
  rcases @nodeStatus_setStatusFlags_cases rules chain node flags other with same | changed
  · rw [same, invalid]
  · rw [changed, keeps _ invalid]

theorem knownInvalid_statusInvalidAncestor (status : BlockStatus) :
    (statusInvalidAncestor status).knownInvalid = true := by
  simp [statusInvalidAncestor, BlockStatus.knownInvalid]

theorem not_clean_iff : ¬ Clean rules chain node ↔ ∃ ancestor ∈ node.ancestors,
      (nodeStatus rules chain ancestor).knownInvalid = true := by
  simp [Clean]

theorem Clean.of_mem (clean : Clean rules chain node)
    (member : other ∈ node.ancestors) : Clean rules chain other :=
  fun ancestor below => clean ancestor (BlockNode.mem_ancestors_trans member below)

theorem sameInvalid_of_index (index : after.index = chain.index) :
    SameInvalid rules chain after := by
  intro node
  rw [nodeStatus_congr index]

theorem TreeInvariant.retract (invariant : TreeInvariant rules chain)
    (index : after.index = chain.index) (below : after.tip ∈ chain.tip.ancestors) :
    TreeInvariant rules after := by
  refine invariant.moveTip (sameNodes_of_index index)
    (invariant.ancestors_known invariant.tip below) ?_
  intro node member
  rw [nodeStatus_congr index]
  exact invariant.best node (BlockNode.mem_ancestors_trans below member)

theorem TreeInvariant.extend (invariant : TreeInvariant rules chain)
    (index : after.index = chain.index)
    (tip : after.tip = .child chain.tip block) (known : Known rules chain (.child chain.tip block))
    (status : (nodeStatus rules chain (.child chain.tip block)).valid = true ∧
      (nodeStatus rules chain (.child chain.tip block)).knownInvalid = false) :
    TreeInvariant rules after := by
  refine invariant.moveTip (sameNodes_of_index index) (tip ▸ known) ?_
  intro node member
  rw [nodeStatus_congr index]
  rw [tip] at member
  rcases List.mem_cons.mp member with rfl | below
  · exact status
  · exact invariant.best node below

structure SameCheckpoint (before after : Chain) : Prop where
  node : after.checkpointNode = before.checkpointNode
  next : after.nextCheckpoint = before.nextCheckpoint

theorem SameCheckpoint.trans (first : SameCheckpoint chain middle)
    (second : SameCheckpoint middle after) : SameCheckpoint chain after :=
  ⟨second.node.trans first.node, second.next.trans first.next⟩

structure SameIndex (before after : Chain) : Prop where
  index : after.index = before.index
  checkpoint : SameCheckpoint before after

theorem connectTip_tree (rules : ChainRules) (chain : Chain) (node : BlockNode) :
    ∃ after result, connectTip rules chain node = (after, result) ∧ SameIndex chain after ∧
      (result = .ok () ∧ after.tip = node ∨ result ≠ .ok () ∧ after.tip = chain.tip) := by
  unfold connectTip
  split
  · exact ⟨_, _, rfl, ⟨rfl, rfl, rfl⟩, .inr ⟨by rintro ⟨⟩, rfl⟩⟩
  · unfold connectBlock
    split
    · exact ⟨_, _, rfl, ⟨rfl, rfl, rfl⟩, .inr ⟨by rintro ⟨⟩, rfl⟩⟩
    · split
      · exact ⟨_, _, rfl, ⟨rfl, rfl, rfl⟩, .inr ⟨by rintro ⟨⟩, rfl⟩⟩
      · exact ⟨_, _, rfl, ⟨rfl, rfl, rfl⟩, .inl ⟨rfl, rfl⟩⟩

variable {last : BlockNode}

theorem connectNodes_tree (invariant : TreeInvariant rules chain)
    (branch : Branch chain.tip attach last)
    (known : ∀ node ∈ attach, Known rules chain node)
    (status : ∀ node ∈ attach, (nodeStatus rules chain node).valid = true ∧
      (nodeStatus rules chain node).knownInvalid = false) :
    ∃ after result, connectNodes rules chain attach = (after, result) ∧
      SameIndex chain after ∧ TreeInvariant rules after ∧
      (result = .ok () → after.tip = last) := by
  induction attach generalizing chain with
  | nil => exact ⟨chain, _, rfl, ⟨rfl, rfl, rfl⟩, invariant, fun _ => branch⟩
  | cons node rest ih =>
    obtain ⟨⟨block, rfl⟩, branch⟩ := branch
    obtain ⟨middle, result, connected, ⟨index, checkpoint⟩, tips⟩ :=
      connectTip_tree rules chain (.child chain.tip block)
    rw [connectNodes, connected]
    rcases tips with ⟨rfl, tip⟩ | ⟨failed, tip⟩
    · have holds := invariant.extend index tip (known _ (.head _)) (status _ (.head _))
      obtain ⟨after, result, others, same, holds, reaches⟩ := @ih middle holds (tip ▸ branch)
        (fun node member => (known node (.tail _ member)).of_sameNodes (sameNodes_of_index index))
        (by
          intro node member
          rw [nodeStatus_congr index]
          exact status node (.tail _ member))
      exact ⟨after, result, others, ⟨same.index.trans index, checkpoint.trans same.checkpoint⟩,
        holds, reaches⟩
    · cases result with
      | ok => exact absurd rfl failed
      | error error =>
        exact ⟨middle, _, rfl, ⟨index, checkpoint⟩, invariant.congr index tip, by rintro ⟨⟩⟩

theorem disconnectNodes_tree {pairs : List (BlockNode × List SpentTxOut)} {fork : BlockNode}
    (path : chain.tip.ancestors = pairs.map Prod.fst ++ fork.ancestors) :
    ∃ after result, disconnectNodes rules chain pairs = (after, result) ∧
      SameIndex chain after ∧ after.tip ∈ chain.tip.ancestors ∧
      (result = .ok () → after.tip = fork) := by
  induction pairs generalizing chain with
  | nil =>
    exact ⟨chain, _, rfl, ⟨rfl, rfl, rfl⟩, BlockNode.self_mem_ancestors,
      fun _ => BlockNode.ancestors_injective path⟩
  | cons pair rest ih =>
    obtain ⟨node, stxos⟩ := pair
    obtain ⟨parent, block, tip, rfl, below⟩ := BlockNode.exists_parent_of_path path
    rw [disconnectNodes]
    split
    · exact ⟨chain, _, rfl, ⟨rfl, rfl, rfl⟩, BlockNode.self_mem_ancestors, by rintro ⟨⟩⟩
    · next view undone =>
      have moved : disconnectBlock rules chain chain.tip view =
          (retractTip rules chain parent view.entries, .ok ()) := by
        simp only [disconnectBlock, retractTip, tip, ne_eq, not_true_eq_false, if_false]
      obtain ⟨after, result, others, same, member, reaches⟩ := @ih
        (retractTip rules chain parent view.entries) below
      have member : after.tip ∈ parent.ancestors := member
      simp only [moved]
      refine ⟨after, result, others, ⟨same.index, same.checkpoint.node, same.checkpoint.next⟩,
        ?_, reaches⟩
      rw [tip]
      exact .tail _ member

theorem length_journals_of_detachNodes
    (detached : detachNodes rules chain view detach = .ok (result, journals)) :
    journals.length = detach.length := by
  induction detach generalizing view journals with
  | nil =>
    cases detached
    rfl
  | cons node rest ih =>
    simp only [detachNodes, bind_eq_ok] at detached
    obtain ⟨stxos, _, lower, _, ⟨_, others⟩, remaining, same⟩ := detached
    cases same
    rw [List.length_cons, List.length_cons, ih remaining]

theorem sameInvalid_statusValid :
    SameInvalid rules chain (setStatusFlags rules chain node statusValid) := by
  intro other
  rcases @nodeStatus_setStatusFlags_cases rules chain node statusValid other with same | changed
  · rw [same]
  · rw [changed]
    rfl

/-- A block below the node, and not the node itself, is known to be invalid. -/
def HasReason (rules : ChainRules) (chain : Chain) (node : BlockNode) : Prop :=
  ∃ ancestor ∈ node.ancestors, ancestor ≠ node ∧
    (nodeStatus rules chain ancestor).knownInvalid = true

def Justified (rules : ChainRules) (chain : Chain) : Prop :=
  ∀ node, Known rules chain node →
    (nodeStatus rules chain node).invalidAncestor = true → HasReason rules chain node

/-- No verdict is withdrawn, and every new mark has a reason. -/
structure Grows (rules : ChainRules) (before after : Chain) : Prop where
  nodes : SameNodes before after
  keeps : ∀ node, (nodeStatus rules before node).knownInvalid = true →
    (nodeStatus rules after node).knownInvalid = true
  marks : ∀ node, Known rules before node → (nodeStatus rules after node).invalidAncestor = true →
      (nodeStatus rules before node).invalidAncestor = true ∨ HasReason rules after node
  checkpoint : SameCheckpoint before after

def setAllFlags (rules : ChainRules) (chain : Chain) (nodes : List BlockNode)
    (flags : BlockStatus → BlockStatus) : Chain :=
  nodes.foldl (fun chain node => setStatusFlags rules chain node flags) chain

theorem HasReason.of_keeps (reason : HasReason rules chain node)
    (keeps : ∀ node, (nodeStatus rules chain node).knownInvalid = true →
      (nodeStatus rules after node).knownInvalid = true) : HasReason rules after node := by
  obtain ⟨ancestor, below, proper, invalid⟩ := reason
  exact ⟨ancestor, below, proper, keeps ancestor invalid⟩

namespace Grows

theorem refl : Grows rules chain chain :=
  ⟨.refl, fun _ => id, fun _ _ => .inl, rfl, rfl⟩

theorem trans (first : Grows rules chain middle)
    (second : Grows rules middle after) : Grows rules chain after := by
  refine ⟨first.nodes.trans second.nodes,
    fun node invalid => second.keeps node (first.keeps node invalid), ?_,
    first.checkpoint.trans second.checkpoint⟩
  intro node known marked
  rcases second.marks node (known.of_sameNodes first.nodes) marked with already | reason
  · exact (first.marks node known already).imp_right (·.of_keeps second.keeps)
  · exact .inr reason

theorem of_sameInvalid (nodes : SameNodes chain after)
    (same : SameInvalid rules chain after) (checkpoint : SameCheckpoint chain after) :
    Grows rules chain after := by
  refine ⟨nodes, ?_, ?_, checkpoint⟩
  · intro node invalid
    rw [same.knownInvalid]
    exact invalid
  · intro node _ marked
    have flag := congrArg Prod.snd (same node)
    exact .inl (flag.symm.trans marked)

theorem of_index (same : SameIndex chain after) : Grows rules chain after :=
  of_sameInvalid (sameNodes_of_index same.index) (sameInvalid_of_index same.index) same.checkpoint

theorem justified (grows : Grows rules chain after) (holds : Justified rules chain) :
    Justified rules after := by
  intro node known marked
  have before : Known rules chain node := (grows.nodes _).symm.trans known
  rcases grows.marks node before marked with already | reason
  · exact (holds node before already).of_keeps grows.keeps
  · exact reason

theorem setStatusFlags (known : Known rules chain node)
    (keeps : ∀ status : BlockStatus, status.knownInvalid = true →
      (flags status).knownInvalid = true)
    (reason : ∀ status : BlockStatus, (flags status).invalidAncestor = true →
      status.invalidAncestor = true ∨ HasReason rules chain node) :
    Grows rules chain (setStatusFlags rules chain node flags) := by
  have stays : ∀ other, (nodeStatus rules chain other).knownInvalid = true →
      (nodeStatus rules (BlockChain.setStatusFlags rules chain node flags)
        other).knownInvalid = true :=
    fun _ => knownInvalid_setStatusFlags keeps
  refine ⟨lookupNode_setStatusFlags flags, stays, ?_, rfl, rfl⟩
  intro other otherKnown marked
  rcases eq_or_ne (other.hash rules.sha256d) (node.hash rules.sha256d) with
    same | distinct
  · obtain rfl := otherKnown.eq_of_hash_eq known same
    rw [nodeStatus_setStatusFlags_self known] at marked
    exact (reason _ marked).imp_right (·.of_keeps stays)
  · rw [nodeStatus_setStatusFlags_of_ne distinct] at marked
    exact .inl marked

theorem setValidateFailed (known : Known rules chain node) :
    Grows rules chain (BlockChain.setStatusFlags rules chain node statusValidateFailed) := by
  refine setStatusFlags known ?_ fun _ => .inl
  intro status _
  simp [statusValidateFailed, BlockStatus.knownInvalid]

theorem setAllInvalidAncestor {nodes : List BlockNode}
    (known : ∀ node ∈ nodes, Known rules chain node)
    (reason : ∀ node ∈ nodes, HasReason rules chain node) :
    Grows rules chain (setAllFlags rules chain nodes statusInvalidAncestor) := by
  induction nodes generalizing chain with
  | nil => exact refl
  | cons node rest ih =>
    have first : Grows rules chain (BlockChain.setStatusFlags rules chain node
        statusInvalidAncestor) := setStatusFlags (known node (.head _))
        (fun status _ => knownInvalid_statusInvalidAncestor status)
        (fun _ _ => .inr (reason node (.head _)))
    refine first.trans (ih ?_ ?_)
    · intro other member
      exact (known other (.tail _ member)).of_sameNodes first.nodes
    · intro other member
      exact (reason other (.tail _ member)).of_keeps first.keeps

end Grows

theorem Branch.mem_ancestors
    (branch : Branch base attach last) (member : node ∈ attach) :
    base ∈ node.ancestors ∧ base ≠ node := by
  induction attach generalizing base with
  | nil => cases member
  | cons first rest ih =>
    obtain ⟨⟨block, rfl⟩, branch⟩ := branch
    have below : base ∈ (BlockNode.child base block).ancestors :=
      .tail _ BlockNode.self_mem_ancestors
    rcases List.mem_cons.mp member with rfl | later
    · refine ⟨below, ?_⟩
      intro same
      have self : BlockNode.child base block ∈ base.ancestors := by
        rw [← same]
        exact BlockNode.self_mem_ancestors
      exact BlockNode.child_not_mem_ancestors self
    · obtain ⟨above, _⟩ := ih branch later
      refine ⟨BlockNode.mem_ancestors_trans above below, ?_⟩
      rintro rfl
      exact BlockNode.child_not_mem_ancestors above

theorem Grows.failedBlock
    (branch : Branch node rest last) (known : Known rules chain node)
    (others : ∀ node ∈ rest, Known rules chain node) : Grows rules chain (setAllFlags rules
      (BlockChain.setStatusFlags rules chain node statusValidateFailed) rest
      statusInvalidAncestor) := by
  have failed : Grows rules chain
      (BlockChain.setStatusFlags rules chain node statusValidateFailed) := .setValidateFailed known
  refine failed.trans (.setAllInvalidAncestor ?_ ?_)
  · exact fun node member => (others node member).of_sameNodes failed.nodes
  · intro other member
    obtain ⟨below, proper⟩ := branch.mem_ancestors member
    refine ⟨node, below, proper, ?_⟩
    rw [nodeStatus_setStatusFlags_self known]
    simp [statusValidateFailed, BlockStatus.knownInvalid]

/-- What checking the blocks to attach does to the tree. -/
structure Examined (rules : ChainRules) (chain : Chain) (attach : List BlockNode)
    (outcome : Chain × Except ChainError Unit) : Prop where
  offChain : OffChain rules chain outcome.1
  keeps : outcome.2 = .ok () → ∀ node, (nodeStatus rules chain node).valid = true →
      (nodeStatus rules outcome.1 node).valid = true
  valid : outcome.2 = .ok () → ∀ node ∈ attach, (nodeStatus rules outcome.1 node).valid = true
  invalid : outcome.2 = .ok () → SameInvalid rules chain outcome.1

theorem attachNodes_tree (invariant : TreeInvariant rules chain)
    {attach : List BlockNode} {base last : BlockNode} {view : UtxoViewpoint}
    (branch : Branch base attach last) (known : ∀ node ∈ attach, Known rules chain node)
    (off : ∀ node ∈ attach, node ∉ chain.tip.ancestors) :
    Examined rules chain attach (attachNodes rules chain view attach) ∧
      Grows rules chain (attachNodes rules chain view attach).1 := by
  induction attach generalizing chain base view with
  | nil =>
    exact ⟨⟨.refl, fun _ _ valid => valid, by rintro _ _ ⟨⟩, fun _ => .refl⟩, .refl⟩
  | cons node rest ih =>
    obtain ⟨_, branch⟩ := branch
    have here := known node (.head _)
    have offHere := off node (.head _)
    have others : ∀ node ∈ rest, Known rules chain node :=
      fun node member => known node (.tail _ member)
    have offRest : ∀ node ∈ rest, node ∉ chain.tip.ancestors :=
      fun node member => off node (.tail _ member)
    have failed : ∀ error : ChainError,
        Examined rules chain (node :: rest) (chain, .error error) ∧ Grows rules chain chain :=
      fun _ => ⟨⟨.refl, by rintro ⟨⟩, by rintro ⟨⟩, by rintro ⟨⟩⟩, .refl⟩
    rw [attachNodes]
    dsimp only
    split
    · next valid =>
      split
      · exact failed _
      · next entries stxos connected =>
        obtain ⟨rest, grows⟩ := @ih chain invariant node
          ⟨entries, node.hash rules.sha256d⟩ branch others offRest
        exact ⟨⟨rest.offChain, rest.keeps, fun ended => List.forall_mem_cons.mpr
          ⟨rest.keeps ended _ valid, rest.valid ended⟩, rest.invalid⟩, grows⟩
    · split
      · next viewAfter checked =>
        have change := invariant.offChain_setStatusFlags here offHere statusValid
        have marked : Grows rules chain (setStatusFlags rules chain node statusValid) :=
          .of_sameInvalid change.nodes sameInvalid_statusValid ⟨rfl, rfl⟩
        obtain ⟨rest, grows⟩ := @ih (setStatusFlags rules chain node statusValid)
          (invariant.of_offChain change) node viewAfter branch
          (fun node member => (others node member).of_sameNodes change.nodes) offRest
        refine ⟨⟨change.trans rest.offChain, ?_, ?_, ?_⟩, marked.trans grows⟩
        · intro ended other valid
          exact rest.keeps ended other (nodeStatus_setStatusFlags_valid (fun _ _ => rfl) valid)
        · intro ended
          refine List.forall_mem_cons.mpr ⟨rest.keeps ended _ ?_, rest.valid ended⟩
          rw [nodeStatus_setStatusFlags_self here]
          rfl
        · intro ended
          exact sameInvalid_statusValid.trans (rest.invalid ended)
      · have change := invariant.offChain_setStatusFlags here offHere statusValidateFailed
        have marked := (invariant.of_offChain change).offChain_setAllInvalid
          (fun node member => (others node member).of_sameNodes change.nodes) offRest
        exact ⟨⟨change.trans marked, by rintro ⟨⟩, by rintro ⟨⟩, by rintro ⟨⟩⟩,
          .failedBlock branch here others⟩
      · exact failed _

/-- The blocks to detach lead from the tip down to a fork; those to attach lead up
from it to the new tip and are not known to be invalid. -/
structure TreePlan (rules : ChainRules) (chain : Chain)
    (detach attach : List BlockNode) (last : BlockNode) : Prop where
  meets : ∃ fork, chain.tip.ancestors = detach ++ BlockNode.ancestors fork ∧ Branch fork attach last
  known : ∀ node ∈ attach, Known rules chain node
  off : ∀ node ∈ attach, node ∉ chain.tip.ancestors
  clean : ∀ node ∈ attach, (nodeStatus rules chain node).knownInvalid = false

theorem verifyReorganizationValidity_tree (invariant : TreeInvariant rules chain)
    (plan : TreePlan rules chain detach attach last) :
    ∃ after result, verifyReorganizationValidity rules chain detach attach = (after, result) ∧
      OffChain rules chain after ∧ Grows rules chain after ∧
      ∀ journals, result = .ok journals → journals.length = detach.length ∧
        SameInvalid rules chain after ∧
        ∀ node ∈ attach, (nodeStatus rules after node).valid = true ∧
          (nodeStatus rules after node).knownInvalid = false := by
  obtain ⟨_, _, branch⟩ := plan.meets
  have verified := @verified_verifyReorganizationValidity rules chain detach attach
  generalize verifyReorganizationValidity rules chain detach attach = outcome at *
  cases verified with
  | empty nothing =>
    obtain ⟨rfl, rfl⟩ := nothing
    refine ⟨chain, .ok [], rfl, .refl, .refl, ?_⟩
    intro journals ended
    cases ended
    exact ⟨rfl, .refl, by rintro _ ⟨⟩⟩
  | stopped => exact ⟨chain, _, rfl, .refl, .refl, by rintro _ ⟨⟩⟩
  | @walked view journals _ result detached attached =>
    obtain ⟨examined, grows⟩ := @attachNodes_tree rules chain invariant attach
      _ _ view branch plan.known plan.off
    rw [attached] at examined grows
    refine ⟨_, _, rfl, examined.offChain, grows, ?_⟩
    intro _ same
    cases result with
    | error error => cases same
    | ok =>
      cases same
      refine ⟨length_journals_of_detachNodes detached, examined.invalid rfl, ?_⟩
      intro node member
      exact ⟨examined.valid rfl node member,
        ((examined.invalid rfl).knownInvalid node).trans (plan.clean node member)⟩

theorem reorganizeChain_tree (invariant : TreeInvariant rules chain)
    (plan : TreePlan rules chain detach attach last) :
    ∃ after result, reorganizeChain rules chain detach attach = (after, result) ∧
      TreeInvariant rules after ∧ Grows rules chain after ∧
      (result = .ok () → after.tip = last ∧ SameInvalid rules chain after) := by
  obtain ⟨verified, result, verification, change, grows, valid⟩ :=
    verifyReorganizationValidity_tree invariant plan
  have holds := invariant.of_offChain change
  rw [reorganizeChain, verification]
  cases result with
  | error error => exact ⟨_, _, rfl, holds, grows, by rintro ⟨⟩⟩
  | ok journals =>
    obtain ⟨length, invalid, statuses⟩ := valid journals rfl
    obtain ⟨fork, path, branch⟩ := plan.meets
    have path : verified.tip.ancestors = (detach.zip journals).map Prod.fst ++ fork.ancestors := by
      rw [change.tip, List.map_fst_zip length.ge]
      exact path
    obtain ⟨lower, result, disconnected, same, below, reaches⟩ :=
      @disconnectNodes_tree rules verified _ fork path
    have lowered := holds.retract same.index below
    have growsOn := grows.trans (.of_index same)
    simp only [disconnected]
    cases result with
    | error error => exact ⟨_, _, rfl, lowered, growsOn, by rintro ⟨⟩⟩
    | ok =>
      have atFork := reaches rfl
      obtain ⟨after, result, connected, raised, holds, reaches⟩ :=
        connectNodes_tree lowered (atFork ▸ branch)
          (fun node member => (plan.known node member).of_sameNodes growsOn.nodes) (by
            intro node member
            rw [nodeStatus_congr same.index]
            exact statuses node member)
      refine ⟨after, result, connected, holds, growsOn.trans (.of_index raised),
        fun ended => ⟨reaches ended, ?_⟩⟩
      exact invalid.trans (sameInvalid_of_index (raised.index.trans same.index))

theorem not_mem_of_nodesAbove (found : findFork chain node = some fork)
    (member : other ∈ nodesAbove (some fork) node) : other ∉ chain.tip.ancestors := by
  obtain ⟨onChain, above, below, split, offChain⟩ := List.find?_eq_some_iff_append.mp found
  have isAbove : nodesAbove (some fork) node = above := by
    have apart : ∀ ancestor ∈ above, some ancestor ≠ some fork := by
      intro ancestor mem same
      have off := offChain ancestor mem
      rw [Option.some.inj same, onChain] at off
      cases off
    rw [nodesAbove, split, List.takeWhile_append_of_pos (by simpa using apart)]
    simp
  rw [isAbove] at member
  simpa using offChain other member

theorem TreeInvariant.clean_iff_nodesAbove (invariant : TreeInvariant rules chain)
    (onChain : fork ∈ chain.tip.ancestors) (common : fork ∈ node.ancestors) :
    Clean rules chain node ↔ ∀ ancestor ∈ nodesAbove (some fork) node,
      (nodeStatus rules chain ancestor).knownInvalid = false := by
  rw [Clean, BlockNode.ancestors_eq_nodesAbove common]
  constructor
  · intro clean ancestor member
    exact clean ancestor (List.mem_append_left _ member)
  · intro above ancestor member
    rcases List.mem_append.mp member with upper | lower
    · exact above ancestor upper
    · exact (invariant.best ancestor (BlockNode.mem_ancestors_trans onChain lower)).2

theorem BlockNode.mem_ancestors_of_append
    (split : node.ancestors = front ++ lower :: rest) (member : upper ∈ front) :
    lower ∈ upper.ancestors := by
  induction node generalizing front with
  | genesis block =>
    cases front with
    | nil => cases member
    | cons first others =>
      have empty := (List.cons.inj split).2.symm
      exact absurd empty (by simp)
  | child parent block ih =>
    cases front with
    | nil => cases member
    | cons first others =>
      obtain ⟨isNode, below⟩ := List.cons.inj split
      rcases List.mem_cons.mp member with rfl | later
      · rw [← isNode, split]
        exact List.mem_append_right _ (.head _)
      · exact ih below later

theorem not_clean_of_mem_takeWhile
    (split : node.ancestors = branch ++ tail)
    (some : branch.any (fun node => (nodeStatus rules chain node).knownInvalid) = true)
    (member : other ∈ branch.takeWhile fun node =>
      !(nodeStatus rules chain node).knownInvalid) :
    ¬ Clean rules chain other := by
  cases rest : branch.dropWhile fun node =>
      !(nodeStatus rules chain node).knownInvalid with
  | nil =>
    obtain ⟨invalid, mem, isInvalid⟩ := List.any_eq_true.mp some
    have passes := List.dropWhile_eq_nil_iff.mp rest invalid mem
    rw [isInvalid] at passes
    cases passes
  | cons invalid others =>
    have isInvalid := List.head_dropWhile_not
      (fun node => !(nodeStatus rules chain node).knownInvalid) (l := branch)
      (by rw [rest]; exact List.cons_ne_nil _ _)
    simp only [rest, List.head_cons, Bool.not_eq_false'] at isInvalid
    have branch := List.takeWhile_append_dropWhile
      (p := fun node => !(nodeStatus rules chain node).knownInvalid) (l := branch)
    rw [rest] at branch
    rw [← branch, List.append_assoc, List.cons_append] at split
    exact not_clean_iff.mpr ⟨invalid, BlockNode.mem_ancestors_of_append split member, isInvalid⟩

section Nodes

variable {parent : BlockNode} {block : MsgBlock}

theorem getReorganizeNodes_eq_of_clean (invariant : TreeInvariant rules chain)
    (known : Known rules chain (.child parent block))
    (clean : Clean rules chain (.child parent block)) :
    getReorganizeNodes rules chain parent (.child parent block) =
      (chain, nodesAbove (findFork chain (.child parent block)) chain.tip,
        (nodesAbove (findFork chain (.child parent block)) (.child parent block)).reverse) := by
  obtain ⟨fork, found, onChain, common⟩ := invariant.exists_findFork known
  have above := (invariant.clean_iff_nodesAbove onChain common).mp clean
  have parentClean : (nodeStatus rules chain parent).knownInvalid = false :=
    clean parent (.tail _ BlockNode.self_mem_ancestors)
  have none : (nodesAbove (some fork) (.child parent block)).any
      (fun node => (nodeStatus rules chain node).knownInvalid) = false := by
    rw [List.any_eq_false]
    intro ancestor member
    rw [above ancestor member]
    exact Bool.false_ne_true
  rw [getReorganizeNodes, if_neg (by simp [parentClean])]
  dsimp only
  rw [found, if_neg (by simp [none])]

theorem treePlan_of_clean (invariant : TreeInvariant rules chain)
    (known : Known rules chain node) (clean : Clean rules chain node) :
    TreePlan rules chain (nodesAbove (findFork chain node) chain.tip)
      (nodesAbove (findFork chain node) node).reverse node := by
  obtain ⟨fork, found, onChain, common⟩ := invariant.exists_findFork known
  rw [found]
  refine ⟨⟨fork, BlockNode.ancestors_eq_nodesAbove onChain,
    branch_of_path (BlockNode.ancestors_eq_nodesAbove common)⟩, ?_, ?_, ?_⟩
  · intro other member
    exact invariant.ancestors_known known ((List.takeWhile_subset _) (List.mem_reverse.mp member))
  · intro other member
    exact not_mem_of_nodesAbove found (List.mem_reverse.mp member)
  · intro other member
    exact (invariant.clean_iff_nodesAbove onChain common).mp clean other
      (List.mem_reverse.mp member)

theorem getReorganizeNodes_of_clean (invariant : TreeInvariant rules chain)
    (known : Known rules chain (.child parent block))
    (clean : Clean rules chain (.child parent block)) :
    ∃ detach attach, getReorganizeNodes rules chain parent (.child parent block) =
        (chain, detach, attach) ∧ TreePlan rules chain detach attach (.child parent block) :=
  ⟨_, _, getReorganizeNodes_eq_of_clean invariant known clean,
    treePlan_of_clean invariant known clean⟩

end Nodes

end ModelOS.BlockChain
