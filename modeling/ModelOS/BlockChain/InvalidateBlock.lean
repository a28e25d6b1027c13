import ModelOS.BlockChain.Acceptance
import ModelOS.BlockChain.MainChainReport
import ModelOS.BlockChain.ManualStatus

namespace ModelOS.BlockChain

open Data Wire ZkPow

variable {rules : ChainRules} {chain after : Chain} {node parent other : BlockNode}
  {block : MsgBlock} {change : BlockNode → BlockStatus → BlockStatus} {walk : List BlockNode}

/-- What is known about the ledger and about the tree between two calls. -/
structure NodeInvariant (rules : ChainRules) (chain : Chain) : Prop where
  ledger : ChainInvariant rules chain
  tree : TreeInvariant rules chain

/-- Known to be invalid are the blocks that were so before, and the marked ones. -/
def Marks (rules : ChainRules) (chain after : Chain) (marked : BlockNode → Prop) : Prop :=
  ∀ other, Known rules chain other → ((nodeStatus rules after other).knownInvalid = true ↔
    (nodeStatus rules chain other).knownInvalid = true ∨ marked other)

theorem Walks.of_sameNodes (walks : Walks rules chain walk) (nodes : SameNodes chain after) :
    Walks rules after walk := by
  intro node
  rw [walks node, Known, Known, nodes]

theorem TreeInvariant.off_of_knownInvalid (tree : TreeInvariant rules chain)
    (invalid : (nodeStatus rules chain node).knownInvalid = true) :
    node ∉ chain.tip.ancestors := by
  intro member
  rw [(tree.best node member).2] at invalid
  cases invalid

theorem TreeInvariant.exists_child (tree : TreeInvariant rules chain)
    (known : Known rules chain node) (off : node ∉ chain.tip.ancestors) :
    ∃ parent block, node = .child parent block := by
  cases node with
  | genesis block =>
    have isRoot : block = chain.tip.root := tree.root _ _ known
    rw [isRoot] at off
    exact absurd BlockNode.genesis_mem_ancestors off
  | child parent block => exact ⟨parent, block, rfl⟩

theorem ChainInvariant.of_restated (invariant : ChainInvariant rules chain)
    (restated : Restated chain after change)
    (demotes : ∀ node status, (change node status).valid = true → status.valid = true)
    (keeps : ∀ node ∈ chain.tip.ancestors, ∀ status, change node status = status) :
    ChainInvariant rules after := by
  refine invariant.of_statuses restated.rest restated.nodes ?_ ?_
  · intro hash entry found
    rw [restated.index] at found
    obtain ⟨before, present, rfl⟩ := Option.map_eq_some_iff.mp found
    exact ⟨before, present, rfl, fun valid => .inl (demotes _ _ valid)⟩
  · intro parent block member
    rw [restated.status (invariant.ancestors_indexed invariant.tip member), keeps _ member]
    exact invariant.bestValid parent block member

variable {index : Hash → Option IndexEntry} {detach tips above : List BlockNode} {best : BlockNode}

theorem NodeInvariant.reorganize (invariant : NodeInvariant rules chain)
    (plan : TreePlan rules chain detach attach best) :
    ∃ after result, reorganizeChain rules chain detach attach = (after, result) ∧
      NodeInvariant rules after ∧ Grows rules chain after ∧
      (result = .ok () → after.tip = best ∧ SameInvalid rules chain after) := by
  obtain ⟨_, _, ledgerEnds, ledger, _⟩ := reorganizeChain_spec invariant.ledger plan.reorganizePlan
  obtain ⟨after, result, ended, tree, grows, reaches⟩ := reorganizeChain_tree invariant.tree plan
  rw [ended] at ledgerEnds
  obtain ⟨rfl, rfl⟩ := Prod.mk.inj ledgerEnds
  exact ⟨_, _, ended, ⟨ledger, tree⟩, grows, reaches⟩

theorem detachNodes_index :
    detachNodes rules { chain with index } view detach = detachNodes rules chain view detach := by
  induction detach generalizing view with
  | nil => rfl
  | cons node rest ih =>
    simp only [detachNodes, ih]
    rfl

theorem disconnectNodes_index :
    disconnectNodes rules { chain with index } pairs =
      ({ (disconnectNodes rules chain pairs).1 with index },
        (disconnectNodes rules chain pairs).2) := by
  induction pairs generalizing chain with
  | nil => rfl
  | cons pair rest ih =>
    obtain ⟨node, stxos⟩ := pair
    rw [disconnectNodes, disconnectNodes]
    dsimp only
    cases disconnectTransactions rules.toTxRules
        ⟨fetchInputUtxos rules.toTxRules chain.utxoCache node.block.transactions node.height,
          chain.tip.hash rules.sha256d⟩ node.block node.height stxos with
    | error error => rfl
    | ok view =>
      have moved : disconnectBlock rules { chain with index } node view =
          ({ (disconnectBlock rules chain node view).1 with index },
            (disconnectBlock rules chain node view).2) := by
        unfold disconnectBlock
        split
        · rfl
        · cases node with
          | genesis block => rfl
          | child parent block => rfl
      dsimp only
      rw [moved]
      cases disconnectBlock rules chain node view with
      | mk lower result =>
        cases result with
        | error error => rfl
        | ok => exact ih

theorem verifyReorganizationValidity_index :
    verifyReorganizationValidity rules { chain with index } detach [] =
      ({ chain with index }, (verifyReorganizationValidity rules chain detach []).2) := by
  unfold verifyReorganizationValidity
  dsimp only
  rw [detachNodes_index]
  split
  · rfl
  · split
    · rfl
    · split
      · rfl
      · cases detachNodes rules chain ⟨chain.utxoCache, chain.tip.hash rules.sha256d⟩ detach with
        | error error => rfl
        | ok detached => rfl

theorem fst_verifyReorganizationValidity :
    (verifyReorganizationValidity rules chain detach []).1 = chain := by
  have same := @verifyReorganizationValidity_index rules chain chain.index detach
  exact congrArg Prod.fst same

theorem reorganizeChain_index : reorganizeChain rules { chain with index } detach [] =
      ({ (reorganizeChain rules chain detach []).1 with index },
        (reorganizeChain rules chain detach []).2) := by
  rw [reorganizeChain, reorganizeChain, verifyReorganizationValidity_index]
  have same := @fst_verifyReorganizationValidity rules chain detach
  cases verified : verifyReorganizationValidity rules chain detach [] with
  | mk checked result =>
    rw [verified] at same
    obtain rfl : checked = chain := same
    cases result with
    | error error => rfl
    | ok journals =>
      dsimp only
      rw [disconnectNodes_index]
      cases disconnectNodes rules checked (detach.zip journals) with
      | mk lower result =>
        cases result with
        | error error => rfl
        | ok => rfl

theorem reorganizeChain_detach (invariant : NodeInvariant rules chain)
    (path : chain.tip.ancestors = detach ++ fork.ancestors) (restated : Restated chain after change)
    (demotes : ∀ node status, (change node status).valid = true → status.valid = true)
    (keeps : ∀ node ∈ fork.ancestors, ∀ status, change node status = status) :
    ∃ lower lowered, reorganizeChain rules after detach [] = (lowered, .ok ()) ∧
      Grows rules chain lower ∧ lower.index = chain.index ∧ lower.tip = fork ∧
      Restated lower lowered change ∧ NodeInvariant rules lowered := by
  have plan : TreePlan rules chain detach [] fork :=
    ⟨⟨fork, path, rfl⟩, by rintro _ ⟨⟩, by rintro _ ⟨⟩, by rintro _ ⟨⟩⟩
  obtain ⟨lower, reorganized⟩ :=
    reorganizeChain_eq_ok invariant.ledger plan.reorganizePlan (by rintro _ _ ⟨⟩)
  obtain ⟨_, _, ended, holds, grows, reaches⟩ := invariant.reorganize plan
  rw [reorganized] at ended
  cases ended
  obtain ⟨tip, _⟩ := reaches rfl
  have index : lower.index = chain.index := by
    have same := @reorganizeChain_index rules chain chain.index detach
    rw [reorganized] at same
    exact congrArg (fun outcome => outcome.1.index) same
  have marked := @Restated.of_index _ _ _ lower { lower with index := after.index }
    restated index rfl
  have off : ∀ node ∈ lower.tip.ancestors, ∀ status, change node status = status := by
    rw [tip]
    exact keeps
  refine ⟨lower, { lower with index := after.index }, ?_, grows, index, tip,
    marked, holds.ledger.of_restated marked demotes off,
    holds.tree.of_offChain (marked.offChain holds.tree off)⟩
  rw [restated.rest, reorganizeChain_index, reorganized]

theorem bestTip_eq_argmax : bestTip rules chain tips =
    (tips.filter fun tip => !(nodeStatus rules chain tip).knownInvalid).argmax
      BlockNode.workSum := by
  rw [bestTip, List.argmax, List.foldl_filter]
  congr 1
  funext best tip
  cases (nodeStatus rules chain tip).knownInvalid with
  | true => rfl
  | false =>
    cases best with
    | none => rfl
    | some best => rfl

theorem bestTip_eq_none (none : bestTip rules chain tips = none) :
    ∀ tip ∈ tips, (nodeStatus rules chain tip).knownInvalid = true := by
  rw [bestTip_eq_argmax, List.argmax_eq_none, List.filter_eq_nil_iff] at none
  simpa using none

theorem bestTip_eq_some (chosen : bestTip rules chain tips = some best) :
    best ∈ tips ∧ (nodeStatus rules chain best).knownInvalid = false ∧
      ∀ tip ∈ tips, (nodeStatus rules chain tip).knownInvalid = false →
        tip.workSum ≤ best.workSum := by
  rw [bestTip_eq_argmax] at chosen
  obtain ⟨member, valid⟩ := List.mem_filter.mp (List.argmax_mem chosen)
  refine ⟨member, by simpa using valid, ?_⟩
  intro tip mem tipValid
  exact List.le_of_mem_argmax (List.mem_filter.mpr ⟨mem, by simp [tipValid]⟩) chosen

theorem bestTip_filter {lowered : Chain} {kept : BlockNode → Bool}
    (same : ∀ tip ∈ tips, (nodeStatus rules lowered tip).knownInvalid =
      ((nodeStatus rules chain tip).knownInvalid || !kept tip)) :
    bestTip rules lowered tips = bestTip rules chain (tips.filter kept) := by
  rw [bestTip_eq_argmax, bestTip_eq_argmax, List.filter_filter]
  congr 1
  refine List.filter_congr fun tip member => ?_
  rw [same tip member, Bool.not_or, Bool.not_not]

/-- The node is marked as invalid, and the listed nodes above it. -/
def invalidation (node : BlockNode) (above : List BlockNode) (other : BlockNode)
    (status : BlockStatus) : BlockStatus :=
  if other = node then statusInvalidated status
  else if other ∈ above then statusOnInvalidated status
  else status

theorem knownInvalid_invalidation :
    (invalidation node above other status).knownInvalid = true ↔
      status.knownInvalid = true ∨ other = node ∨ other ∈ above := by
  unfold invalidation
  split
  · next isNode => simp [knownInvalid_statusInvalidated, isNode]
  · next distinct =>
    split
    · next member => simp [knownInvalid_statusOnInvalidated, member]
    · next absent => simp [distinct, absent]

theorem valid_of_invalidation
    (valid : (invalidation node above other status).valid = true) : status.valid = true := by
  unfold invalidation at valid
  split at valid
  · cases valid
  · split at valid
    · exact valid_of_statusOnInvalidated valid
    · exact valid

theorem invalidation_of_apart (apart : node ∉ other.ancestors)
    (isAbove : ∀ other ∈ above, node ∈ other.ancestors) :
    invalidation node above other status = status := by
  have distinct : other ≠ node := by
    rintro rfl
    exact apart BlockNode.self_mem_ancestors
  rw [invalidation, if_neg distinct, if_neg fun marked => apart (isAbove other marked)]

theorem restated_invalidation (tree : TreeInvariant rules chain) (known : Known rules chain node)
    (aboveKnown : ∀ other ∈ above, Known rules chain other) (apart : node ∉ above) :
    Restated chain (setAllFlags rules
      (setStatusFlags rules chain node statusInvalidated) above statusOnInvalidated)
      (invalidation node above) := by
  have first := restated_setStatusFlags tree.hash known statusInvalidated
  have others := restated_setAllFlags (first.keyed tree.hash)
    (fun other member => (aboveKnown other member).of_sameNodes first.nodes)
    statusOnInvalidated_idempotent
  refine (first.trans others).congr fun other status => ?_
  unfold invalidation
  by_cases isNode : other = node
  · simp [isNode, apart]
  · simp [isNode]

theorem grows_invalidation (known : Known rules chain node)
    (isAbove : ∀ other ∈ above, node ∈ other.ancestors)
    (restated : Restated chain after (invalidation node above)) : Grows rules chain after := by
  have keeps : ∀ other, (nodeStatus rules chain other).knownInvalid = true →
      (nodeStatus rules after other).knownInvalid = true := by
    intro other invalid
    rw [nodeStatus] at invalid ⊢
    rw [restated.index]
    cases found : chain.index (other.hash rules.sha256d) with
    | none =>
      rw [found] at invalid
      cases invalid
    | some entry =>
      rw [found] at invalid
      exact knownInvalid_invalidation.mpr (.inl invalid)
  have own : (nodeStatus rules after node).knownInvalid = true := by
    rw [restated.status known]
    exact knownInvalid_invalidation.mpr (.inr (.inl rfl))
  refine ⟨restated.nodes, keeps, ?_, by rw [restated.rest], by rw [restated.rest]⟩
  intro other otherKnown marked
  rw [restated.status otherKnown, invalidation] at marked
  split at marked
  · exact .inl marked
  · next distinct =>
    split at marked
    · next member => exact .inr ⟨node, isAbove other member, Ne.symm distinct, own⟩
    · exact .inl marked

structure Invalidated (rules : ChainRules) (after : Chain) (walk : List BlockNode)
    (node : BlockNode) : Prop where
  flagged : ∀ other, Known rules after other → node ∈ other.ancestors →
    (nodeStatus rules after other).knownInvalid = true
  off : ∀ other, Known rules after other → node ∈ other.ancestors → other ∉ after.tip.ancestors
  clean : Clean rules after after.tip
  best : ∀ tip ∈ inactiveTips after walk, Clean rules after tip → tip.workSum ≤ after.tip.workSum

/-- No clean branch apart from the node has more work than a given tip. -/
def NoBetterTip (rules : ChainRules) (chain : Chain) (walk : List BlockNode)
    (node tip : BlockNode) : Prop :=
  ∀ other ∈ inactiveTips chain walk, Clean rules chain other →
    node ∉ other.ancestors → other.workSum ≤ tip.workSum

/-- The block is off the best chain; if it is known to be invalid, so is all that
descends from it; and the tip is the best one there is. -/
structure SideGuard (rules : ChainRules) (chain : Chain) (walk : List BlockNode)
    (node : BlockNode) : Prop where
  off : node ∉ chain.tip.ancestors
  flagged : (nodeStatus rules chain node).knownInvalid = true →
    ∀ other, Known rules chain other → node ∈ other.ancestors →
      (nodeStatus rules chain other).knownInvalid = true
  best : NoBetterTip rules chain walk node chain.tip

theorem invalidated_iff_of_knownInvalid (tree : TreeInvariant rules chain)
    (invalid : (nodeStatus rules chain node).knownInvalid = true) :
    Invalidated rules chain walk node ↔ SideGuard rules chain walk node := by
  have off := tree.off_of_knownInvalid invalid
  constructor
  · intro done
    exact ⟨off, fun _ => done.flagged, fun tip member clean _ => done.best tip member clean⟩
  · intro guard
    refine ⟨guard.flagged invalid, ?_, tree.clean_tip, ?_⟩
    · intro other _ above onChain
      exact off (BlockNode.mem_ancestors_trans onChain above)
    · intro tip member clean
      refine guard.best tip member clean ?_
      intro below
      rw [clean node below] at invalid
      cases invalid

theorem invalidate_side (invariant : NodeInvariant rules chain)
    (walks : Walks rules chain walk) (known : Known rules chain node)
    (off : node ∉ chain.tip.ancestors) :
    let after := (inactiveTips chain walk).foldl (fun chain tip =>
      if isAncestor tip node then
        setAllFlags rules chain (nodesAbove (some node) tip) statusOnInvalidated
      else chain) (setStatusFlags rules chain node statusInvalidated)
    NodeInvariant rules after ∧ Grows rules chain after ∧ after.tip = chain.tip ∧
      Marks rules chain after fun other => node ∈ other.ancestors := by
  intro after
  have tree := invariant.tree
  have aboveKnown : ∀ other ∈ branchesAbove node (inactiveTips chain walk),
      Known rules chain other := by
    intro other member
    obtain ⟨_, tip, isTip, below⟩ := mem_branchesAbove_iff.mp member
    exact tree.ancestors_known ((mem_inactiveTips_iff walks).mp isTip).1 below
  have isAbove : ∀ other ∈ branchesAbove node (inactiveTips chain walk),
      node ∈ other.ancestors ∧ node ≠ other :=
    fun other member => isAncestor_iff.mp (mem_branchesAbove_iff.mp member).1
  have apart : node ∉ branchesAbove node (inactiveTips chain walk) :=
    fun member => (isAbove node member).2 rfl
  have restated : Restated chain after (invalidation node
      (branchesAbove node (inactiveTips chain walk))) := by
    have marks := restated_invalidation tree known aboveKnown apart
    rw [← foldl_branches] at marks
    exact marks
  have keeps : ∀ other ∈ chain.tip.ancestors, ∀ status,
      invalidation node (branchesAbove node (inactiveTips chain walk)) other status = status :=
    fun other member status => invalidation_of_apart
      (fun inside => off (BlockNode.mem_ancestors_trans member inside))
      fun other member => (isAbove other member).1
  have grows := grows_invalidation known (fun other member => (isAbove other member).1) restated
  refine ⟨⟨invariant.ledger.of_restated restated (fun _ _ => valid_of_invalidation) keeps,
    tree.of_offChain (restated.offChain tree keeps)⟩, grows, restated.tip, ?_⟩
  intro other otherKnown
  rw [restated.status otherKnown, knownInvalid_invalidation]
  refine or_congr_right ?_
  constructor
  · rintro (rfl | member)
    · exact BlockNode.self_mem_ancestors
    · exact (isAbove other member).1
  · intro above
    by_cases isNode : other = node
    · exact .inl isNode
    · have otherOff : other ∉ chain.tip.ancestors := fun member =>
        off (BlockNode.mem_ancestors_trans member above)
      obtain ⟨tip, isTip, below⟩ := exists_inactiveTip_above walks otherKnown otherOff
      exact .inr (mem_branchesAbove_iff.mpr
        ⟨isAncestor_iff.mpr ⟨above, Ne.symm isNode⟩, tip, isTip, below⟩)

/-- Marking a block and some that descend from it leaves the clean branches that do
not contain it. -/
theorem Marks.clean_iff
    (marks : Marks rules chain after marked) (tree : TreeInvariant rules chain)
    (own : marked node) (above : ∀ other, marked other → node ∈ other.ancestors)
    (known : Known rules chain tip) :
    Clean rules after tip ↔ Clean rules chain tip ∧ node ∉ tip.ancestors := by
  have invalid := fun other member => marks other (tree.ancestors_known known member)
  constructor
  · intro clean
    refine ⟨?_, ?_⟩
    · intro ancestor member
      have stays := mt (invalid ancestor member).mpr (by simp [clean ancestor member])
      exact Bool.eq_false_iff.mpr fun wasInvalid => stays (.inl wasInvalid)
    · intro member
      have marks := (invalid node member).mpr (.inr own)
      rw [clean node member] at marks
      cases marks
  · rintro ⟨clean, apart⟩ ancestor member
    refine Bool.eq_false_iff.mpr fun isInvalid => ?_
    rcases (invalid ancestor member).mp isInvalid with wasInvalid | isMarked
    · rw [clean ancestor member] at wasInvalid
      cases wasInvalid
    · exact apart (BlockNode.mem_ancestors_trans member (above ancestor isMarked))

theorem invalidated_iff_side (tree : TreeInvariant rules chain)
    (treeAfter : TreeInvariant rules after) (walks : Walks rules chain walk)
    (off : node ∉ chain.tip.ancestors)
    (notInvalid : (nodeStatus rules chain node).knownInvalid = false)
    (nodes : SameNodes chain after) (tip : after.tip = chain.tip)
    (invalid : Marks rules chain after fun other => node ∈ other.ancestors) :
    Invalidated rules after walk node ↔ SideGuard rules chain walk node := by
  have tips : inactiveTips after walk = inactiveTips chain walk := by
    simp only [inactiveTips, tip]
  have known : ∀ other, Known rules after other → Known rules chain other :=
    fun other otherKnown => (nodes _).symm.trans otherKnown
  have clean : ∀ other ∈ inactiveTips chain walk,
      (Clean rules after other ↔ Clean rules chain other ∧ node ∉ other.ancestors) :=
    fun other member => invalid.clean_iff tree BlockNode.self_mem_ancestors (fun _ => id)
      ((mem_inactiveTips_iff walks).mp member).1
  constructor
  · intro done
    refine ⟨off, ?_, ?_⟩
    · intro wasInvalid
      rw [notInvalid] at wasInvalid
      cases wasInvalid
    · intro other member isClean apart
      have best := done.best other (tips ▸ member) ((clean other member).mpr ⟨isClean, apart⟩)
      rw [tip] at best
      exact best
  · intro guard
    refine ⟨?_, ?_, treeAfter.clean_tip, ?_⟩
    · intro other otherKnown above
      exact (invalid other (known other otherKnown)).mpr (.inr above)
    · intro other _ above onChain
      rw [tip] at onChain
      exact off (BlockNode.mem_ancestors_trans onChain above)
    · intro other member isClean
      rw [tips] at member
      obtain ⟨wasClean, apart⟩ := (clean other member).mp isClean
      rw [tip]
      exact guard.best other member wasClean apart

/-- The tip is lowered to the parent of a block that it contained, and the blocks from there
up to the old tip are marked. -/
structure Lowered (rules : ChainRules) (chain : Chain) (parent : BlockNode) (block : MsgBlock)
    (lowered : Chain) : Prop where
  holds : NodeInvariant rules lowered
  grows : Grows rules chain lowered
  tip : lowered.tip = parent
  marks : Marks rules chain lowered fun other =>
    .child parent block ∈ other.ancestors ∧ other ∈ chain.tip.ancestors

theorem lower_spec (invariant : NodeInvariant rules chain)
    (onChain : .child parent block ∈ chain.tip.ancestors) :
    let marked := setStatusFlags rules chain (.child parent block) statusInvalidated
    let above := nodesAbove (some (.child parent block)) chain.tip
    let detach := above.filter fun node => !(nodeStatus rules marked node).knownInvalid
    ∃ lowered, reorganizeChain rules (setAllFlags rules marked above statusOnInvalidated)
        (detach ++ [.child parent block]) [] = (lowered, .ok ()) ∧
      Lowered rules chain parent block lowered := by
  intro marked above detach
  have tree := invariant.tree
  have known := tree.ancestors_known tree.tip onChain
  have mem_above : ∀ other, other ∈ above ↔ other ∈ chain.tip.ancestors ∧
      .child parent block ∈ other.ancestors ∧ other ≠ .child parent block :=
    fun other => mem_nodesAbove_iff onChain
  have aboveKnown : ∀ other ∈ above, Known rules chain other := fun other member =>
    tree.ancestors_known tree.tip ((mem_above other).mp member).1
  have apart : .child parent block ∉ above := fun member =>
    ((mem_above _).mp member).2.2 rfl
  -- None of the blocks to detach was known to be invalid.
  have all : detach = above := by
    refine List.filter_eq_self.mpr fun other member => ?_
    obtain ⟨below, _, distinct⟩ := (mem_above other).mp member
    have status := (restated_setStatusFlags tree.hash known statusInvalidated).status
      (aboveKnown other member)
    rw [if_neg distinct] at status
    rw [status, (tree.best other below).2]
    rfl
  have path : chain.tip.ancestors = (above ++ [.child parent block]) ++ parent.ancestors := by
    rw [List.append_assoc]
    exact BlockNode.ancestors_eq_nodesAbove onChain
  have restated := restated_invalidation tree known aboveKnown apart
  have isAbove : ∀ other ∈ above, .child parent block ∈ other.ancestors :=
    fun other member => ((mem_above other).mp member).2.1
  have keeps : ∀ other ∈ parent.ancestors, ∀ status,
      invalidation (.child parent block) above other status = status :=
    fun other member status => invalidation_of_apart (fun inside =>
      BlockNode.child_not_mem_ancestors (BlockNode.mem_ancestors_trans member inside)) isAbove
  obtain ⟨lower, lowered, ended, growsLower, index, tip, marks, holds⟩ :=
    reorganizeChain_detach invariant path restated (fun _ _ => valid_of_invalidation) keeps
  have grows : Grows rules lower lowered :=
    grows_invalidation (known.of_sameNodes (sameNodes_of_index index)) isAbove marks
  rw [all]
  refine ⟨lowered, ended, holds, growsLower.trans grows, marks.tip.trans tip, ?_⟩
  intro other otherKnown
  rw [marks.status (otherKnown.of_sameNodes (sameNodes_of_index index)),
    knownInvalid_invalidation, nodeStatus_congr index]
  refine or_congr_right ?_
  rw [mem_above]
  constructor
  · rintro (rfl | ⟨below, overlay, _⟩)
    · exact ⟨BlockNode.self_mem_ancestors, onChain⟩
    · exact ⟨overlay, below⟩
  · rintro ⟨overlay, below⟩
    by_cases isNode : other = .child parent block
    · exact .inl isNode
    · exact .inr ⟨below, overlay, isNode⟩

/-- Every block that descends from the one on the best chain is on it too, is known to
be invalid or gets exposed when the chosen tip is tried; and that tip can be used, or
no other is better than the parent. -/
structure ActiveGuard (rules : ChainRules) (chain : Chain) (walk : List BlockNode)
    (parent node best : BlockNode) : Prop where
  flagged : ∀ other, Known rules chain other → node ∈ other.ancestors →
    other ∈ chain.tip.ancestors ∨ (nodeStatus rules chain other).knownInvalid = true ∨
      Exposed rules chain best other
  best : Clean rules chain best ∧ node ∉ best.ancestors ∨ NoBetterTip rules chain walk node parent

theorem bestTip_lowered (tree : TreeInvariant rules chain)
    (walks : Walks rules chain walk) (onChain : .child parent block ∈ chain.tip.ancestors)
    (lowers : Lowered rules chain parent block lowered) :
    bestTip rules lowered (inactiveTips lowered walk ++ [lowered.tip]) =
      bestTip rules chain (inactiveTips chain walk ++ [parent]) := by
  obtain ⟨_, ⟨nodes, _⟩, tip, invalid⟩ := lowers
  have below : parent ∈ chain.tip.ancestors := BlockNode.mem_ancestors_trans onChain
    (.tail _ BlockNode.self_mem_ancestors)
  have walksLowered := walks.of_sameNodes nodes
  have path := BlockNode.ancestors_eq_nodesAbove onChain
  have known : ∀ other ∈ inactiveTips lowered walk ++ [lowered.tip], Known rules chain other := by
    intro other member
    rcases List.mem_append.mp member with inactive | active
    · exact (nodes _).symm.trans ((mem_inactiveTips_iff walksLowered).mp inactive).1
    · rw [List.mem_singleton.mp active, tip]
      exact tree.ancestors_known tree.tip below
  rw [@bestTip_filter rules chain _ lowered fun other => !(decide
    (.child parent block ∈ other.ancestors ∧ other ∈ chain.tip.ancestors))]
  · rw [List.filter_append, ← @inactiveTips_of_lower chain lowered walk (tip ▸ below), tip]
    congr 2
    · apply List.filter_congr
      intro other member
      obtain ⟨_, off, _⟩ := (mem_inactiveTips_iff walksLowered).mp member
      rw [tip] at off
      rw [Bool.eq_iff_iff]
      simp only [Bool.not_eq_true', decide_eq_false_iff_not, decide_eq_true_eq]
      refine ⟨fun kept old => kept ⟨?_, old⟩, fun kept old => kept old.2⟩
      rw [path] at old
      rcases List.mem_append.mp old with upper | lower
      · exact ((mem_nodesAbove_iff onChain).mp upper).2.1
      · rcases List.mem_cons.mp lower with rfl | lowest
        · exact BlockNode.self_mem_ancestors
        · exact absurd lowest off
    · simp [BlockNode.child_not_mem_ancestors]
  · intro other member
    rw [Bool.eq_iff_iff, invalid other (known other member)]
    simp

theorem statusInvalidAncestor_idempotent (status : BlockStatus) :
    statusInvalidAncestor (statusInvalidAncestor status) = statusInvalidAncestor status :=
  rfl

theorem NodeInvariant.notClean (invariant : NodeInvariant rules chain)
    (known : Known rules chain (.child parent block))
    (unclean : ¬ Clean rules chain (.child parent block)) :
    ∃ after, getReorganizeNodes rules chain parent (.child parent block) = (after, [], []) ∧
      NodeInvariant rules after ∧ Grows rules chain after ∧ SameClean rules chain after ∧
      after.tip = chain.tip ∧
      ((nodeStatus rules chain (.child parent block)).knownInvalid = false →
        Marks rules chain after (Exposed rules chain (.child parent block))) := by
  have tree := invariant.tree
  obtain ⟨marked, nodes, above, exposed⟩ := getReorganizeNodes_marks tree known unclean
  obtain ⟨_, nodesToo, change, grows, sameClean⟩ :=
    getReorganizeNodes_of_not_clean tree known unclean
  rw [nodes] at nodesToo
  cases nodesToo
  have markedKnown : ∀ other ∈ marked, Known rules chain other :=
    fun other member => tree.ancestors_known known (above other member).1
  have restated := restated_setAllFlags tree.hash markedKnown statusInvalidAncestor_idempotent
  refine ⟨_, nodes, ⟨(invariant.ledger.setAllInvalid marked).1, tree.of_offChain change⟩, grows,
    sameClean, change.tip, fun ownClean other otherKnown => ?_⟩
  rw [restated.status otherKnown]
  split
  · next member => simp [knownInvalid_statusInvalidAncestor, (exposed ownClean other).mp member]
  · next absent => simp [mt (exposed ownClean other).mpr absent]

theorem reorganizeTo_spec (invariant : NodeInvariant rules chain) (known : Known rules chain best)
    (off : best ∉ chain.tip.ancestors) :
    ∃ after result, reorganizeTo rules chain best = (after, result) ∧
      NodeInvariant rules after ∧ Grows rules chain after ∧
      (Clean rules chain best → result = .ok () →
        after.tip = best ∧ SameInvalid rules chain after) ∧
      (¬ Clean rules chain best → after.tip = chain.tip ∧ SameClean rules chain after ∧
        ((nodeStatus rules chain best).knownInvalid = false →
          Marks rules chain after (Exposed rules chain best))) := by
  obtain ⟨parent, block, rfl⟩ := invariant.tree.exists_child known off
  by_cases clean : Clean rules chain (.child parent block)
  · obtain ⟨detach, attach, nodes, plan⟩ := getReorganizeNodes_of_clean invariant.tree known clean
    obtain ⟨after, result, ended, holds, grows, reaches⟩ := invariant.reorganize plan
    refine ⟨after, result, ?_, holds, grows, fun _ => reaches, fun unclean => absurd clean unclean⟩
    rw [reorganizeTo, nodes]
    exact ended
  · obtain ⟨after, nodes, holds, grows, sameClean, tip, marks⟩ := invariant.notClean known clean
    refine ⟨after, .ok (), ?_, holds, grows, fun isClean => absurd isClean clean,
      fun _ => ⟨tip, sameClean, marks⟩⟩
    rw [reorganizeTo, nodes]
    rfl

theorem exists_child_of_mem_ancestors (below : other ∈ node.ancestors)
    (proper : other ≠ node) : ∃ block, .child other block ∈ node.ancestors := by
  have path := BlockNode.ancestors_eq_nodesAbove below
  have some : nodesAbove (some other) node ≠ [] := by
    intro empty
    rw [empty, List.nil_append] at path
    exact proper (BlockNode.ancestors_injective path).symm
  obtain ⟨block, last⟩ := getLast?_of_path path some
  exact ⟨block, (List.takeWhile_subset _) (List.mem_of_getLast? last)⟩

theorem mem_inactiveTips_of_apart (tree : TreeInvariant rules chain)
    (walks : Walks rules chain walk) (onChain : .child parent block ∈ chain.tip.ancestors)
    (known : Known rules chain node) (childless : ∀ block, ¬ Known rules chain (.child node block))
    (apart : .child parent block ∉ node.ancestors) : node ∈ inactiveTips chain walk := by
  refine (mem_inactiveTips_iff walks).mpr ⟨known, ?_, childless⟩
  intro member
  have proper : node ≠ chain.tip := by
    rintro rfl
    exact apart onChain
  obtain ⟨above, isAbove⟩ := exists_child_of_mem_ancestors member proper
  exact childless above (tree.ancestors_known tree.tip isAbove)

theorem invalidated_iff_active (tree : TreeInvariant rules chain)
    (treeAfter : TreeInvariant rules after) (walks : Walks rules chain walk)
    (onChain : .child parent block ∈ chain.tip.ancestors) (nodes : SameNodes chain after)
    (chosen : bestTip rules chain (inactiveTips chain walk ++ [parent]) = some best)
    (invalid : ∀ other, Known rules chain other → .child parent block ∈ other.ancestors →
      ((nodeStatus rules after other).knownInvalid = true ↔
        other ∈ chain.tip.ancestors ∨ (nodeStatus rules chain other).knownInvalid = true ∨
          Exposed rules chain best other))
    (clean : ∀ other, Known rules chain other → (Clean rules after other ↔
        Clean rules chain other ∧ .child parent block ∉ other.ancestors))
    (settled : (Clean rules chain best ∧ .child parent block ∉ best.ancestors) ∧
        after.tip = best ∨ ¬ (Clean rules chain best ∧ .child parent block ∉ best.ancestors) ∧
        after.tip = parent) : Invalidated rules after walk (.child parent block) ↔
      ActiveGuard rules chain walk parent (.child parent block) best := by
  obtain ⟨_, _, heaviest⟩ := bestTip_eq_some chosen
  have walksAfter := walks.of_sameNodes nodes
  have known : ∀ {other}, Known rules after other → Known rules chain other :=
    fun otherKnown => (nodes _).symm.trans otherKnown
  have below : ∀ {other}, other ∈ parent.ancestors → other ∈ chain.tip.ancestors :=
    fun member => BlockNode.mem_ancestors_trans onChain (.tail _ member)
  constructor
  · intro done
    refine ⟨?_, ?_⟩
    · intro other otherKnown above
      exact (invalid other otherKnown above).mp
        (done.flagged other (otherKnown.of_sameNodes nodes) above)
    · rcases settled with ⟨usable, _⟩ | ⟨_, tip⟩
      · exact .inl usable
      · refine .inr fun other member wasClean apart => ?_
        obtain ⟨otherKnown, off, childless⟩ := (mem_inactiveTips_iff walks).mp member
        have inactive : other ∈ inactiveTips after walk := by
          refine (mem_inactiveTips_iff walksAfter).mpr
            ⟨otherKnown.of_sameNodes nodes, ?_, fun block child => childless block (known child)⟩
          rw [tip]
          exact fun lower => off (below lower)
        have best := done.best other inactive ((clean other otherKnown).mpr ⟨wasClean, apart⟩)
        rw [tip] at best
        exact best
  · intro guard
    refine ⟨?_, ?_, treeAfter.clean_tip, ?_⟩
    · intro other otherKnown above
      exact (invalid other (known otherKnown) above).mpr
        (guard.flagged other (known otherKnown) above)
    · intro other _ above onTip
      have contains := BlockNode.mem_ancestors_trans onTip above
      rcases settled with ⟨usable, tip⟩ | ⟨_, tip⟩
      · exact usable.2 (tip ▸ contains)
      · exact BlockNode.child_not_mem_ancestors (tip ▸ contains)
    · intro tip member isClean
      obtain ⟨tipKnown, _, childless⟩ := (mem_inactiveTips_iff walksAfter).mp member
      obtain ⟨wasClean, apart⟩ := (clean tip (known tipKnown)).mp isClean
      have inactive : tip ∈ inactiveTips chain walk :=
        mem_inactiveTips_of_apart tree walks onChain (known tipKnown)
          (fun block child => childless block (child.of_sameNodes nodes)) apart
      rcases settled with ⟨_, isTip⟩ | ⟨unusable, isTip⟩
      · rw [isTip]
        exact heaviest tip (List.mem_append_left _ inactive)
          (wasClean tip BlockNode.self_mem_ancestors)
      · rw [isTip]
        exact (guard.best.resolve_left unusable) tip inactive wasClean apart

theorem tip_setStatusFlags :
    (setStatusFlags rules chain node flags).tip = chain.tip :=
  rfl

section Active

variable {lowered : Chain} (tree : TreeInvariant rules chain) (walks : Walks rules chain walk)
  (onChain : .child parent block ∈ chain.tip.ancestors)
  (lowers : Lowered rules chain parent block lowered)
  (chosen : bestTip rules chain (inactiveTips chain walk ++ [parent]) = some best)

include lowers

theorem exposed_lowered (tree : TreeInvariant rules chain) (known : Known rules chain best)
    (off : other ∉ chain.tip.ancestors) :
    Exposed rules lowered best other ↔ Exposed rules chain best other := by
  refine and_congr_right fun _ => forall₃_congr fun between member above => ?_
  have betweenOff : between ∉ chain.tip.ancestors := fun onChain =>
    off (BlockNode.mem_ancestors_trans onChain above)
  have marks := lowers.marks between (tree.ancestors_known known member)
  simp only [betweenOff, and_false, or_false] at marks
  rw [← Bool.not_eq_true, ← Bool.not_eq_true, marks]

include tree onChain

theorem clean_lowered_iff (known : Known rules chain other) : Clean rules lowered other ↔
    Clean rules chain other ∧ .child parent block ∉ other.ancestors :=
  lowers.marks.clean_iff tree ⟨BlockNode.self_mem_ancestors, onChain⟩ (fun _ => And.left) known

omit tree onChain in
/-- As long as the chosen tip can be used, nothing but the old branch is marked. -/
theorem knownInvalid_lowered_iff (apart : .child parent block ∉ best.ancestors)
    (known : Known rules chain other) (above : .child parent block ∈ other.ancestors) :
    (nodeStatus rules lowered other).knownInvalid = true ↔ other ∈ chain.tip.ancestors ∨
      (nodeStatus rules chain other).knownInvalid = true ∨ Exposed rules chain best other := by
  have never : ¬ Exposed rules chain best other := fun exposed =>
    apart (BlockNode.mem_ancestors_trans exposed.1 above)
  rw [lowers.marks other known]
  simp only [above, true_and, never, or_false]
  exact or_comm

include walks chosen

theorem invalidated_iff_of_clean (known : Known rules chain best)
    (clean : Clean rules lowered best) (treeAfter : TreeInvariant rules after)
    (nodes : SameNodes lowered after) (tip : after.tip = best)
    (sameInvalid : SameInvalid rules lowered after) :
    Invalidated rules after walk (.child parent block) ↔
      ActiveGuard rules chain walk parent (.child parent block) best := by
  have usable := (clean_lowered_iff tree onChain lowers known).mp clean
  refine invalidated_iff_active tree treeAfter walks onChain (lowers.grows.nodes.trans nodes)
    chosen ?_ ?_ (.inl ⟨usable, tip⟩)
  · intro other otherKnown above
    rw [sameInvalid.knownInvalid other]
    exact knownInvalid_lowered_iff lowers usable.2 otherKnown above
  · intro other otherKnown
    rw [sameInvalid.sameClean other (otherKnown.of_sameNodes lowers.grows.nodes)]
    exact clean_lowered_iff tree onChain lowers otherKnown

theorem invalidated_iff_of_unclean (known : Known rules chain best)
    (off : best ∉ chain.tip.ancestors) (unclean : ¬ Clean rules lowered best)
    (treeAfter : TreeInvariant rules after) (nodes : SameNodes lowered after)
    (tip : after.tip = lowered.tip) (sameClean : SameClean rules lowered after)
    (exposed : (nodeStatus rules lowered best).knownInvalid = false →
      Marks rules lowered after (Exposed rules lowered best)) :
    Invalidated rules after walk (.child parent block) ↔
      ActiveGuard rules chain walk parent (.child parent block) best := by
  have bestLowered : (nodeStatus rules lowered best).knownInvalid = false := by
    refine Bool.eq_false_iff.mpr fun marked => ?_
    rcases (lowers.marks best known).mp marked with wasInvalid | ⟨_, onOld⟩
    · rw [(bestTip_eq_some chosen).2.1] at wasInvalid
      cases wasInvalid
    · exact off onOld
  have stillKnown {other : BlockNode} (otherKnown : Known rules chain other) :
      Known rules lowered other := otherKnown.of_sameNodes lowers.grows.nodes
  refine invalidated_iff_active tree treeAfter walks onChain (lowers.grows.nodes.trans nodes)
    chosen ?_ ?_ (.inr ⟨mt (clean_lowered_iff tree onChain lowers known).mpr unclean,
      tip.trans lowers.tip⟩)
  · intro other otherKnown above
    rw [exposed bestLowered other (stillKnown otherKnown), lowers.marks other otherKnown]
    simp only [above, true_and]
    by_cases onOld : other ∈ chain.tip.ancestors
    · simp [onOld]
    · rw [exposed_lowered lowers tree known onOld]
      simp [onOld]
  · intro other otherKnown
    rw [sameClean other (stillKnown otherKnown)]
    exact clean_lowered_iff tree onChain lowers otherKnown

end Active

theorem exists_bestTip (tree : TreeInvariant rules chain) (below : parent ∈ chain.tip.ancestors) :
    ∃ best, bestTip rules chain (inactiveTips chain walk ++ [parent]) = some best := by
  refine Option.ne_none_iff_exists'.mp fun none => ?_
  have invalid := bestTip_eq_none none parent (List.mem_append_right _ (List.mem_singleton_self _))
  rw [(tree.best parent below).2] at invalid
  cases invalid

theorem invalidateBlock_active (invariant : NodeInvariant rules chain)
    (walks : Walks rules chain walk) {hash : Hash}
    (found : lookupNode chain hash = some (.child parent block))
    (notGenesis : (BlockNode.child parent block).height ≠ 0)
    (onChain : .child parent block ∈ chain.tip.ancestors) : ∃ best after result,
      bestTip rules chain (inactiveTips chain walk ++ [parent]) = some best ∧
      invalidateBlock rules chain walk hash = (after, result) ∧
      NodeInvariant rules after ∧ Grows rules chain after ∧
      (result = .ok () → (Invalidated rules after walk (.child parent block) ↔
        ActiveGuard rules chain walk parent (.child parent block) best)) := by
  have tree := invariant.tree
  have notInvalid := (tree.best _ onChain).2
  have below : parent ∈ chain.tip.ancestors := BlockNode.mem_ancestors_trans onChain
    (.tail _ BlockNode.self_mem_ancestors)
  obtain ⟨lowered, ended, lowers⟩ := lower_spec invariant onChain
  obtain ⟨best, chosen⟩ := @exists_bestTip rules chain parent walk tree below
  have choice := (bestTip_lowered tree walks onChain lowers).trans chosen
  have unfolded : invalidateBlock rules chain walk hash =
      if best = lowered.tip then (lowered, .ok ()) else reorganizeTo rules lowered best := by
    simp only [invalidateBlock, found, if_neg notGenesis, notInvalid,
      Bool.false_eq_true, if_false, invalidateActive, tip_setStatusFlags, ended,
      choice, if_neg (not_not.mpr onChain)]
  by_cases isTip : best = lowered.tip
  · rw [if_pos isTip] at unfolded
    refine ⟨best, lowered, .ok (), chosen, unfolded, lowers.holds, lowers.grows, fun _ => ?_⟩
    have known : Known rules chain best := by
      rw [isTip, lowers.tip]
      exact tree.ancestors_known tree.tip below
    exact invalidated_iff_of_clean tree walks onChain lowers chosen known
      (isTip ▸ lowers.holds.tree.clean_tip) lowers.holds.tree .refl isTip.symm .refl
  · rw [if_neg isTip] at unfolded
    have inactive : best ∈ inactiveTips chain walk := by
      refine (List.mem_append.mp (bestTip_eq_some chosen).1).resolve_right ?_
      intro isParent
      exact isTip ((List.mem_singleton.mp isParent).trans lowers.tip.symm)
    obtain ⟨known, off, _⟩ := (mem_inactiveTips_iff walks).mp inactive
    have offLowered : best ∉ lowered.tip.ancestors := by
      rw [lowers.tip]
      exact fun member => off (BlockNode.mem_ancestors_trans below member)
    obtain ⟨after, result, tried, holds, grows, whenClean, whenUnclean⟩ :=
      reorganizeTo_spec lowers.holds (known.of_sameNodes lowers.grows.nodes) offLowered
    refine ⟨best, after, result, chosen, unfolded.trans tried, holds,
      lowers.grows.trans grows, fun isOk => ?_⟩
    by_cases clean : Clean rules lowered best
    · obtain ⟨moved, sameInvalid⟩ := whenClean clean isOk
      exact invalidated_iff_of_clean tree walks onChain lowers chosen known clean holds.tree
        grows.nodes moved sameInvalid
    · obtain ⟨stays, sameClean, exposed⟩ := whenUnclean clean
      exact invalidated_iff_of_unclean tree walks onChain lowers chosen known off clean
        holds.tree grows.nodes stays sameClean exposed

def InvalidateGuard (rules : ChainRules) (chain : Chain) (walk : List BlockNode)
    (node : BlockNode) : Prop :=
  SideGuard rules chain walk node ∨
    ∃ parent block best, node = .child parent block ∧ node ∈ chain.tip.ancestors ∧
      bestTip rules chain (inactiveTips chain walk ++ [parent]) = some best ∧
      ActiveGuard rules chain walk parent node best

theorem invalidateGuard_iff_side (off : node ∉ chain.tip.ancestors) :
    InvalidateGuard rules chain walk node ↔ SideGuard rules chain walk node := by
  constructor
  · rintro (side | ⟨_, _, _, _, onChain, _⟩)
    · exact side
    · exact absurd onChain off
  · exact .inl

theorem invalidateGuard_iff_active (onChain : .child parent block ∈ chain.tip.ancestors)
    (chosen : bestTip rules chain (inactiveTips chain walk ++ [parent]) = some best) :
    InvalidateGuard rules chain walk (.child parent block) ↔
      ActiveGuard rules chain walk parent (.child parent block) best := by
  constructor
  · rintro (side | ⟨_, _, other, isNode, _, isBest, guard⟩)
    · exact absurd onChain side.off
    · obtain ⟨rfl, rfl⟩ := BlockNode.child.inj isNode
      obtain rfl := Option.some.inj (chosen.symm.trans isBest)
      exact guard
  · intro guard
    exact .inr ⟨parent, block, best, rfl, onChain, chosen, guard⟩

theorem invalidateBlock_spec (invariant : NodeInvariant rules chain)
    (walks : Walks rules chain walk) (hash : Hash) :
    ∃ after result, invalidateBlock rules chain walk hash = (after, result) ∧
      NodeInvariant rules after ∧ Grows rules chain after ∧
      (result = .ok () → ∃ node, lookupNode chain hash = some node ∧
        (Invalidated rules after walk node ↔ InvalidateGuard rules chain walk node)) := by
  have tree := invariant.tree
  cases found : lookupNode chain hash with
  | none =>
    simp only [invalidateBlock, found]
    exact ⟨_, _, rfl, invariant, .refl, by rintro ⟨⟩⟩
  | some node =>
    have known := tree.known found
    by_cases isGenesis : node.height = 0
    · simp only [invalidateBlock, found, if_pos isGenesis]
      exact ⟨_, _, rfl, invariant, .refl, by rintro ⟨⟩⟩
    · cases invalid : (nodeStatus rules chain node).knownInvalid with
      | true =>
        refine ⟨chain, .ok (), ?_, invariant, .refl, fun _ => ⟨node, rfl, ?_⟩⟩
        · simp only [invalidateBlock, found, if_neg isGenesis, invalid, if_true]
        · have done := @invalidated_iff_of_knownInvalid rules chain node walk tree invalid
          exact done.trans (invalidateGuard_iff_side (tree.off_of_knownInvalid invalid)).symm
      | false =>
        by_cases onChain : node ∈ chain.tip.ancestors
        · cases node with
          | genesis block => exact absurd rfl isGenesis
          | child parent block =>
            obtain ⟨best, after, result, chosen, ended, holds, grows, settles⟩ :=
              invalidateBlock_active invariant walks found isGenesis onChain
            refine ⟨after, result, ended, holds, grows, fun isOk => ⟨_, rfl, ?_⟩⟩
            exact (settles isOk).trans (invalidateGuard_iff_active onChain chosen).symm
        · obtain ⟨holds, grows, tip, marks⟩ := invalidate_side invariant walks known onChain
          refine ⟨_, .ok (), ?_, holds, grows, fun _ => ⟨node, rfl, ?_⟩⟩
          · simp only [invalidateBlock, found, if_neg isGenesis, invalid,
              Bool.false_eq_true, if_false, tip_setStatusFlags, onChain, not_false_eq_true, if_true]
            rfl
          · exact (invalidated_iff_side tree holds.tree walks onChain invalid
              grows.nodes tip marks).trans (invalidateGuard_iff_side onChain).symm

end ModelOS.BlockChain
