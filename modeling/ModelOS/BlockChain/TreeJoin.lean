import ModelOS.BlockChain.ProcessBlock
import ModelOS.BlockChain.StatusMarks

namespace ModelOS.BlockChain

open Data Wire ZkPow

section Join

variable {rules : ChainRules} {chain after : Chain} {node parent : BlockNode} {block : MsgBlock}

def overtakes (tip node : BlockNode) : Bool :=
  shouldChangeTip tip.workSum node.workSum (calcWork tip.header.bits) (calcWork node.header.bits)

/-- The clean branches are as before, and the new block's branch is clean if its
parent's was. -/
structure CleanKept (rules : ChainRules) (chain : Chain) (parent : BlockNode)
    (block : MsgBlock) (after : Chain) : Prop where
  clean : SameClean rules chain after
  own : Clean rules after (.child parent block) ↔ Clean rules chain parent

/-- How a new block joins the tree, and what is then reported of it. -/
inductive Joined (rules : ChainRules) (chain : Chain) (parent : BlockNode)
    (block : MsgBlock) (after : Chain) : Bool → Prop
  | extended (atTip : parent = chain.tip) (tip : after.tip = .child parent block) :
      Joined rules chain parent block after true
  | stayed (apart : parent ≠ chain.tip) (behind : overtakes chain.tip (.child parent block) = false)
      (tip : after.tip = chain.tip) : Joined rules chain parent block after false
  | blocked (apart : parent ≠ chain.tip) (ahead : overtakes chain.tip (.child parent block) = true)
      (unclean : ¬ Clean rules chain parent) (tip : after.tip = chain.tip) :
      Joined rules chain parent block after true
  | reorganized (apart : parent ≠ chain.tip)
      (ahead : overtakes chain.tip (.child parent block) = true)
      (clean : Clean rules chain parent) (tip : after.tip = .child parent block) :
      Joined rules chain parent block after true

theorem clean_child_iff (fresh : nodeStatus rules chain (.child parent block) = statusDataStored) :
    Clean rules chain (.child parent block) ↔ Clean rules chain parent := by
  rw [Clean, BlockNode.ancestors, List.forall_mem_cons, fresh]
  exact and_iff_right rfl

theorem CleanKept.of_sameClean (known : Known rules chain (.child parent block))
    (fresh : nodeStatus rules chain (.child parent block) = statusDataStored)
    (same : SameClean rules chain after) : CleanKept rules chain parent block after :=
  ⟨same, (same _ known).trans (clean_child_iff fresh)⟩

theorem connectValid_tree (invariant : TreeInvariant rules chain)
    (known : Known rules chain (.child chain.tip block))
    (clean : (nodeStatus rules chain (.child chain.tip block)).knownInvalid = false) (marks : Bool)
    (valid : marks = false → (nodeStatus rules chain (.child chain.tip block)).valid = true)
    (connected : connectTip rules chain (.child chain.tip block) = (after, .ok ())) :
    let final := if marks then
      setStatusFlags rules after (.child chain.tip block) statusValid else after
    TreeInvariant rules final ∧ final.tip = .child chain.tip block ∧ Grows rules chain final ∧
      SameInvalid rules chain final := by
  obtain ⟨_, _, ended, ⟨index, checkpoint⟩, tips⟩ :=
    connectTip_tree rules chain (.child chain.tip block)
  rw [connected] at ended
  cases ended
  have tip : after.tip = .child chain.tip block := by
    rcases tips with ⟨_, tip⟩ | ⟨failed, _⟩
    · exact tip
    · exact absurd rfl failed
  cases marks with
  | false =>
    exact ⟨invariant.extend index tip known ⟨valid rfl, clean⟩, tip,
      .of_index ⟨index, checkpoint⟩, sameInvalid_of_index index⟩
  | true =>
    have change := invariant.offChain_setStatusFlags known
      BlockNode.child_not_mem_ancestors statusValid
    have sameIndex : (setStatusFlags rules after (.child chain.tip block) statusValid).index =
        (setStatusFlags rules chain (.child chain.tip block) statusValid).index := by
      simp only [setStatusFlags, index]
    have invalid : SameInvalid rules chain (setStatusFlags rules after
        (.child chain.tip block) statusValid) :=
      sameInvalid_statusValid.trans (sameInvalid_of_index sameIndex)
    refine ⟨(invariant.of_offChain change).extend sameIndex tip
      (known.of_sameNodes change.nodes) ⟨?_, ?_⟩, tip,
      .of_sameInvalid (change.nodes.trans (sameNodes_of_index sameIndex)) invalid
        ⟨checkpoint.node, checkpoint.next⟩, invalid⟩
    · change (nodeStatus rules (setStatusFlags rules chain (.child chain.tip block)
        statusValid) (.child chain.tip block)).valid = true
      rw [nodeStatus_setStatusFlags_self known]
      rfl
    · exact (sameInvalid_statusValid.knownInvalid _).trans clean

theorem connectExamined_tree (invariant : TreeInvariant rules chain)
    (known : Known rules chain (.child chain.tip block))
    (clean : (nodeStatus rules chain (.child chain.tip block)).knownInvalid = false)
    (fastAdd : Bool)
    (valid : fastAdd = false → (nodeStatus rules chain (.child chain.tip block)).valid = true) :
    let outcome : Chain × Except ChainError Bool :=
      match connectTip rules chain (.child chain.tip block) with
      | (chain', .error (.rule error)) =>
        (setStatusFlags rules chain' (.child chain.tip block) statusValidateFailed,
          .error (.rule error))
      | (chain', .error (.assert description)) => (chain', .error (.assert description))
      | (chain', .ok ()) =>
        (if fastAdd || !(nodeStatus rules chain' (.child chain.tip block)).valid then
          setStatusFlags rules chain' (.child chain.tip block) statusValid
          else chain', .ok true)
    TreeInvariant rules outcome.1 ∧ Grows rules chain outcome.1 ∧
      ∀ isMainChain, outcome.2 = .ok isMainChain →
        isMainChain = true ∧ outcome.1.tip = .child chain.tip block ∧
          SameInvalid rules chain outcome.1 := by
  obtain ⟨after, result, connected, same, tips⟩ :=
    connectTip_tree rules chain (.child chain.tip block)
  rw [connected]
  cases result with
  | error error =>
    have tip : after.tip = chain.tip := by
      rcases tips with ⟨ended, _⟩ | ⟨_, tip⟩
      · cases ended
      · exact tip
    have grows : Grows rules chain after := .of_index same
    have holds := invariant.congr same.index tip
    have stillKnown := known.of_sameNodes grows.nodes
    cases error with
    | rule error =>
      have change := holds.offChain_setStatusFlags stillKnown
        (by rw [tip]; exact BlockNode.child_not_mem_ancestors) statusValidateFailed
      exact ⟨holds.of_offChain change, grows.trans (.setValidateFailed stillKnown),
        by rintro _ ⟨⟩⟩
    | assert description => exact ⟨holds, grows, by rintro _ ⟨⟩⟩
  | ok =>
    obtain ⟨holds, tip, grows, invalid⟩ := connectValid_tree invariant known clean
      (fastAdd || !(nodeStatus rules after (.child chain.tip block)).valid) (by
        intro unmarked
        exact valid (Bool.or_eq_false_iff.mp unmarked).1)
      connected
    refine ⟨holds, grows, ?_⟩
    intro isMainChain ended
    cases ended
    exact ⟨rfl, tip, invalid⟩

/-- What connecting a new block leaves of the tree. -/
structure JoinsTree (rules : ChainRules) (chain : Chain) (parent : BlockNode) (block : MsgBlock)
    (outcome : Chain × Except ChainError Bool) : Prop where
  tree : TreeInvariant rules outcome.1
  grows : Grows rules chain outcome.1
  joined : ∀ isMainChain, outcome.2 = .ok isMainChain →
    CleanKept rules chain parent block outcome.1 ∧
      Joined rules chain parent block outcome.1 isMainChain

section Connect

variable {flags : BehaviorFlags} (invariant : TreeInvariant rules chain)
include invariant

theorem connectBestChain_extends (known : Known rules chain (.child chain.tip block))
    (fresh : nodeStatus rules chain (.child chain.tip block) = statusDataStored) :
    JoinsTree rules chain chain.tip block
      (connectBestChain rules chain chain.tip block flags) := by
  have atTip : (BlockNode.child chain.tip block).header.prevBlock = chain.tip.hash rules.sha256d :=
    (invariant.linked chain.tip block known).1
  have notInvalid : (nodeStatus rules chain (.child chain.tip block)).knownInvalid = false := by
    rw [fresh]
    rfl
  have joined {after : Chain} (tip : after.tip = .child chain.tip block)
      (invalid : SameInvalid rules chain after) : CleanKept rules chain chain.tip block after ∧
        Joined rules chain chain.tip block after true :=
    ⟨.of_sameClean known fresh invalid.sameClean, .extended rfl tip⟩
  rw [connectBestChain]
  dsimp only
  rw [if_pos atTip, fresh, show statusDataStored.valid = false from rfl, Bool.or_false]
  cases fast : flags.fastAdd with
  | true =>
    obtain ⟨holds, grows, reports⟩ :=
      connectExamined_tree invariant known notInvalid true (by rintro ⟨⟩)
    refine ⟨holds, grows, fun isMainChain ended => ?_⟩
    obtain ⟨rfl, tip, invalid⟩ := reports isMainChain ended
    exact joined tip invalid
  | false =>
    simp only [Bool.false_eq_true, if_false]
    cases checked : checkConnectBlock rules (.child chain.tip block)
        ⟨chain.utxoCache, (BlockNode.child chain.tip block).header.prevBlock⟩ with
    | error error =>
      cases error with
      | rule error =>
        have change := invariant.offChain_setStatusFlags known
          BlockNode.child_not_mem_ancestors statusValidateFailed
        exact ⟨invariant.of_offChain change, .setValidateFailed known, by rintro _ ⟨⟩⟩
      | assert description => exact ⟨invariant, .refl, by rintro _ ⟨⟩⟩
    | ok view =>
      have change := invariant.offChain_setStatusFlags known
        BlockNode.child_not_mem_ancestors statusValid
      obtain ⟨holds, grows, reports⟩ := @connectExamined_tree rules
        (setStatusFlags rules chain (.child chain.tip block) statusValid)
        block (invariant.of_offChain change) (known.of_sameNodes change.nodes)
        ((sameInvalid_statusValid.knownInvalid _).trans notInvalid) false (by
          intro _
          exact congrArg BlockStatus.valid (nodeStatus_setStatusFlags_self known statusValid))
      have marked : Grows rules chain
          (setStatusFlags rules chain (.child chain.tip block) statusValid) :=
        .of_sameInvalid change.nodes sameInvalid_statusValid ⟨rfl, rfl⟩
      refine ⟨holds, marked.trans grows, fun isMainChain ended => ?_⟩
      obtain ⟨rfl, tip, invalid⟩ := reports isMainChain ended
      exact joined tip (sameInvalid_statusValid.trans invalid)

theorem connectBestChain_forks (known : Known rules chain (.child parent block))
    (fresh : nodeStatus rules chain (.child parent block) = statusDataStored)
    (apart : parent ≠ chain.tip) :
    JoinsTree rules chain parent block (connectBestChain rules chain parent block flags) := by
  obtain ⟨linked, parentKnown⟩ := invariant.linked parent block known
  have notTip : ¬ (BlockNode.child parent block).header.prevBlock =
      chain.tip.hash rules.sha256d := by
    intro atTip
    exact apart (parentKnown.eq_of_hash_eq invariant.tip (linked.symm.trans atTip))
  rw [connectBestChain]
  dsimp only
  rw [if_neg notTip]
  split
  · next behind =>
    refine ⟨invariant, .refl, ?_⟩
    intro isMainChain ended
    cases ended
    exact ⟨.of_sameClean known fresh fun _ _ => Iff.rfl,
      .stayed apart (by simpa [overtakes] using behind) rfl⟩
  · next ahead =>
    have ahead : overtakes chain.tip (.child parent block) = true := by
      simpa [overtakes] using ahead
    by_cases clean : Clean rules chain (.child parent block)
    · obtain ⟨detach, attach, nodes, plan⟩ := getReorganizeNodes_of_clean invariant known clean
      obtain ⟨after, result, reorganized, holds, grows, reaches⟩ :=
        reorganizeChain_tree invariant plan
      simp only [nodes, reorganized]
      cases result with
      | error error => exact ⟨holds, grows, by rintro _ ⟨⟩⟩
      | ok =>
        refine ⟨holds, grows, ?_⟩
        intro isMainChain ended
        cases ended
        obtain ⟨tip, invalid⟩ := reaches rfl
        exact ⟨.of_sameClean known fresh invalid.sameClean,
          .reorganized apart ahead ((clean_child_iff fresh).mp clean) tip⟩
    · obtain ⟨after, nodes, change, grows, sameClean⟩ :=
        getReorganizeNodes_of_not_clean invariant known clean
      have nothing : reorganizeChain rules after [] [] = (after, .ok ()) := rfl
      simp only [nodes, nothing]
      refine ⟨invariant.of_offChain change, grows, ?_⟩
      intro isMainChain ended
      cases ended
      exact ⟨.of_sameClean known fresh sameClean,
        .blocked apart ahead (mt (clean_child_iff fresh).mpr clean) change.tip⟩

theorem connectBestChain_tree (known : Known rules chain (.child parent block))
    (fresh : nodeStatus rules chain (.child parent block) = statusDataStored) :
    JoinsTree rules chain parent block (connectBestChain rules chain parent block flags) := by
  by_cases atTip : parent = chain.tip
  · subst atTip
    exact connectBestChain_extends invariant known fresh
  · exact connectBestChain_forks invariant known fresh atTip

end Connect

theorem afterContextLookup_of_passes
    (context : checkBlockContext rules block parent flags checkpoint = .ok ()) :
    afterContextLookup rules chain block.msgHeader.blockHeader parent flags =
      (findPreviousCheckpoint rules chain).1 := by
  simp only [checkBlockContext, checkBlockHeaderContext, bind_eq_ok] at context
  obtain ⟨_, ⟨_, passes, _⟩, _⟩ := context
  rw [afterContextLookup, passes]

section Add

variable {entry : IndexEntry}

theorem lookupNode_addNode_self :
    lookupNode (addNode rules chain block entry) (blockHashOf rules block) = some entry.node := by
  simp [lookupNode, addNode]

theorem lookupNode_addNode_of_ne {hash : Hash} (distinct : hash ≠ blockHashOf rules block) :
    lookupNode (addNode rules chain block entry) hash = lookupNode chain hash := by
  simp only [lookupNode, addNode, Function.update_of_ne distinct]

theorem nodeStatus_addNode_of_ne (distinct : node.hash rules.sha256d ≠ blockHashOf rules block) :
    nodeStatus rules (addNode rules chain block entry) node = nodeStatus rules chain node := by
  simp only [nodeStatus, addNode, Function.update_of_ne distinct]

theorem nodeStatus_addNode_self :
    nodeStatus rules (addNode rules chain block entry) (.child parent block) = entry.status := by
  have self : (addNode rules chain block entry).index
      ((BlockNode.child parent block).hash rules.sha256d) = some entry := Function.update_self ..
  rw [nodeStatus, self]
  rfl

theorem lookupNode_addNode_cases {hash : Hash} (isNode : entry.node = .child parent block)
    (found : lookupNode (addNode rules chain block entry) hash = some node) :
    hash = blockHashOf rules block ∧ node = .child parent block ∨
      lookupNode chain hash = some node := by
  rcases eq_or_ne hash (blockHashOf rules block) with rfl | distinct
  · rw [lookupNode_addNode_self, isNode] at found
    exact .inl ⟨rfl, (Option.some.inj found).symm⟩
  · rw [lookupNode_addNode_of_ne distinct] at found
    exact .inr found

variable (isNew : chain.index (blockHashOf rules block) = none)
include isNew

theorem Known.hash_ne (known : Known rules chain node) :
    node.hash rules.sha256d ≠ blockHashOf rules block := by
  intro same
  rw [Known, same, lookupNode, isNew] at known
  cases known

theorem Known.addNode (known : Known rules chain node) :
    Known rules (addNode rules chain block entry) node :=
  (lookupNode_addNode_of_ne (known.hash_ne isNew)).trans known

theorem TreeInvariant.sameClean_addNode (invariant : TreeInvariant rules chain) :
    SameClean rules chain (BlockChain.addNode rules chain block entry) := by
  intro node known
  have same : ∀ ancestor ∈ node.ancestors,
      nodeStatus rules (BlockChain.addNode rules chain block entry) ancestor =
        nodeStatus rules chain ancestor := by
    intro ancestor member
    exact nodeStatus_addNode_of_ne ((invariant.ancestors_known known member).hash_ne isNew)
  constructor
  · intro clean ancestor member
    rw [← same ancestor member]
    exact clean ancestor member
  · intro clean ancestor member
    rw [same ancestor member]
    exact clean ancestor member

theorem TreeInvariant.addNode (invariant : TreeInvariant rules chain)
    (isNode : entry.node = .child parent block)
    (found : lookupNode chain block.msgHeader.blockHeader.prevBlock = some parent) :
    TreeInvariant rules (BlockChain.addNode rules chain block entry) ∧
      Known rules (BlockChain.addNode rules chain block entry) (.child parent block) := by
  have parentKnown := invariant.known found
  have linked := invariant.hash _ parent found
  have own : Known rules (BlockChain.addNode rules chain block entry) (.child parent block) := by
    have self := @lookupNode_addNode_self rules chain block entry
    rw [isNode] at self
    exact self
  refine ⟨⟨?_, ?_, ?_, ?_, ?_⟩, own⟩
  · intro hash node present
    rcases lookupNode_addNode_cases isNode present with ⟨rfl, rfl⟩ | before
    · rfl
    · exact invariant.hash hash node before
  · intro hash node present
    rcases lookupNode_addNode_cases isNode present with ⟨rfl, rfl⟩ | before
    · exact invariant.root _ parent found
    · exact invariant.root hash node before
  · intro parent' block' present
    rcases lookupNode_addNode_cases isNode present with ⟨_, same⟩ | before
    · cases same
      exact ⟨linked.symm, parentKnown.addNode isNew⟩
    · obtain ⟨linked, parentKnown⟩ := invariant.linked parent' block' before
      exact ⟨linked, parentKnown.addNode isNew⟩
  · exact invariant.tip.addNode isNew
  · intro node member
    rw [nodeStatus_addNode_of_ne ((invariant.ancestors_known invariant.tip member).hash_ne isNew)]
    exact invariant.best node member

theorem Justified.addNode (holds : Justified rules chain)
    (tree : TreeInvariant rules chain) (isNode : entry.node = .child parent block)
    (fresh : entry.status = statusDataStored) :
    Justified rules (addNode rules chain block entry) := by
  intro node known marked
  rcases lookupNode_addNode_cases isNode known with ⟨_, rfl⟩ | before
  · rw [nodeStatus_addNode_self, fresh] at marked
    cases marked
  · rw [nodeStatus_addNode_of_ne (Known.hash_ne isNew before)] at marked
    obtain ⟨ancestor, below, proper, invalid⟩ := holds node before marked
    refine ⟨ancestor, below, proper, ?_⟩
    rw [nodeStatus_addNode_of_ne ((tree.ancestors_known before below).hash_ne isNew)]
    exact invalid

end Add

/-- What a block does to the tree with itself in the index, it does to the tree
without. -/
theorem Joined.of_added {added : Chain} {isMainChain : Bool} (tip : added.tip = chain.tip)
    (sameClean : Clean rules added parent ↔ Clean rules chain parent)
    (joined : Joined rules added parent block after isMainChain) :
    Joined rules chain parent block after isMainChain := by
  cases joined with
  | extended atTip moved => exact .extended (atTip.trans tip) moved
  | stayed apart behind same =>
    rw [tip] at apart behind same
    exact .stayed apart behind same
  | blocked apart ahead unclean same =>
    rw [tip] at apart ahead same
    exact .blocked apart ahead (mt sameClean.mpr unclean) same
  | reorganized apart ahead clean moved =>
    rw [tip] at apart ahead
    exact .reorganized apart ahead (sameClean.mp clean) moved

theorem maybeAcceptBlock_tree (invariant : TreeInvariant rules chain)
    {flags : BehaviorFlags} {fastAdded : Bool}
    (isNew : chain.index (blockHashOf rules block) = none) :
    ∃ after result, maybeAcceptBlock rules chain block flags fastAdded = (after, result) ∧
      TreeInvariant rules after ∧ SameNodesBut (blockHashOf rules block) chain after ∧
      (Justified rules chain → Justified rules after) ∧ ∀ isMainChain, result = .ok isMainChain →
        SameCheckpoint (findPreviousCheckpoint rules chain).1 after ∧
        ∃ parent, lookupNode chain block.msgHeader.blockHeader.prevBlock = some parent ∧
          Known rules after (.child parent block) ∧ CleanKept rules chain parent block after ∧
          Joined rules chain parent block after isMainChain := by
  rw [maybeAcceptBlock]
  dsimp only
  split
  · exact ⟨_, _, rfl, invariant, fun _ _ => rfl, id, by rintro _ ⟨⟩⟩
  · next parent found =>
    split
    · exact ⟨_, _, rfl, invariant, fun _ _ => rfl, id, by rintro _ ⟨⟩⟩
    · obtain ⟨checkpointNode, nextCheckpoint, looked⟩ :=
        @afterContextLookup_chain rules flags chain block.msgHeader.blockHeader parent
      have holds : TreeInvariant rules { chain with checkpointNode, nextCheckpoint } :=
        invariant.congr rfl rfl
      rw [looked]
      split
      · exact ⟨_, _, rfl, holds, fun _ _ => rfl, id, by rintro _ ⟨⟩⟩
      · next context =>
        let entry : IndexEntry := ⟨.child parent block, statusDataStored, fastAdded,
          (findPreviousCheckpoint rules chain).2.toOption.join⟩
        obtain ⟨added, known⟩ := @TreeInvariant.addNode rules
          { chain with checkpointNode, nextCheckpoint } parent block entry isNew holds rfl found
        have sameClean := @TreeInvariant.sameClean_addNode rules
          { chain with checkpointNode, nextCheckpoint } block entry isNew holds
        have fresh := @nodeStatus_addNode_self rules
          { chain with checkpointNode, nextCheckpoint } parent block entry
        obtain ⟨stays, grows, joins⟩ :=
          @connectBestChain_tree rules _ parent block flags added known fresh
        refine ⟨_, _, rfl, stays, ?_, ?_, ?_⟩
        · intro hash distinct
          exact (grows.nodes hash).trans (lookupNode_addNode_of_ne distinct)
        · intro marks
          exact grows.justified (marks.addNode isNew holds rfl rfl)
        · intro isMainChain ended
          obtain ⟨kept, joined⟩ := joins isMainChain ended
          have parentSame := sameClean parent (invariant.known found)
          rw [← afterContextLookup_of_passes context, looked]
          refine ⟨⟨grows.checkpoint.node, grows.checkpoint.next⟩, parent, found,
            known.of_sameNodes grows.nodes, ⟨?_, ?_⟩, ?_⟩
          · intro node nodeKnown
            exact (kept.clean node (nodeKnown.addNode isNew)).trans (sameClean node nodeKnown)
          · exact kept.own.trans parentSame
          · exact @Joined.of_added rules chain _ parent block
              (addNode rules { chain with checkpointNode, nextCheckpoint } block
                entry) isMainChain rfl parentSame joined

end Join

end ModelOS.BlockChain
