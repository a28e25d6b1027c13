import ModelOS.BlockChain.TreeJoin

namespace ModelOS.BlockChain

open Data Wire ZkPow

/-! The latest checkpoint reached, over runs in which every known block agrees with the
checkpoints. -/

section Reached

variable {rules : ChainRules} {chain after : Chain} {node : BlockNode}

/-- The known blocks agree with the checkpoints, each of which is at the height of
some block. -/
def AgreesWithCheckpoints (rules : ChainRules) (chain : Chain) : Prop :=
  ∀ checkpoint ∈ rules.checkpoints, 0 ≤ checkpoint.height ∧
    ∀ node, Known rules chain node → node.height = checkpoint.height →
      node.hash rules.sha256d = checkpoint.hash

/-- The node is a known block whose hash is that of a checkpoint. -/
def IsCheckpoint (rules : ChainRules) (chain : Chain) (node : BlockNode) : Prop :=
  Known rules chain node ∧
    ∃ checkpoint ∈ rules.checkpoints, node.hash rules.sha256d = checkpoint.hash

structure CheckpointInvariant (rules : ChainRules) (chain : Chain) : Prop where
  reached : ∀ node, chain.checkpointNode = some node → IsCheckpoint rules chain node
  next : ∀ checkpoint, chain.nextCheckpoint = some checkpoint → checkpoint ∈ rules.checkpoints

theorem CheckpointInvariant.of_known (invariant : CheckpointInvariant rules chain)
    (same : SameCheckpoint chain after)
    (known : ∀ node, Known rules chain node → Known rules after node) :
    CheckpointInvariant rules after := by
  constructor
  · intro node reached
    obtain ⟨isKnown, isCheckpoint⟩ := invariant.reached node (same.node ▸ reached)
    exact ⟨known node isKnown, isCheckpoint⟩
  · intro checkpoint next
    exact invariant.next checkpoint (same.next ▸ next)

/-- Heights wrap around, but a block at or above a height that is not negative has
an ancestor at that height. -/
theorem exists_ancestor_of_height (nonneg : 0 ≤ height)
    (above : ¬ node.height < height) : ∃ ancestor ∈ node.ancestors, ancestor.height = height := by
  induction node with
  | genesis block =>
    refine ⟨_, BlockNode.self_mem_ancestors, ?_⟩
    simp only [BlockNode.height] at above ⊢
    grind
  | child parent block ih =>
    by_cases same : (BlockNode.child parent block).height = height
    · exact ⟨_, BlockNode.self_mem_ancestors, same⟩
    · have below : ¬ parent.height < height := by
        simp only [BlockNode.height] at above same
        grind
      obtain ⟨ancestor, member, atHeight⟩ := ih below
      exact ⟨ancestor, .tail _ member, atHeight⟩

theorem findPreviousCheckpoint_reached (tree : TreeInvariant rules chain)
    (invariant : CheckpointInvariant rules chain) (agrees : AgreesWithCheckpoints rules chain) :
    CheckpointInvariant rules (findPreviousCheckpoint rules chain).1 ∧
      ∃ checkpoint, (findPreviousCheckpoint rules chain).2 = .ok checkpoint ∧
        ∀ node, checkpoint = some node → IsCheckpoint rules chain node := by
  have isCheckpoint {checkpoint : Checkpoint} {node : BlockNode}
      (member : checkpoint ∈ rules.checkpoints)
      (found : lookupNode chain checkpoint.hash = some node) : IsCheckpoint rules chain node :=
    ⟨tree.known found, checkpoint, member, tree.hash _ node found⟩
  have only {node : BlockNode} (reached : IsCheckpoint rules chain node) (other : BlockNode)
      (same : some node = some other) : IsCheckpoint rules chain other :=
    Option.some.inj same ▸ reached
  unfold findPreviousCheckpoint
  split
  · exact ⟨invariant, none, rfl, by rintro _ ⟨⟩⟩
  · next first rest checkpoints =>
    split
    · -- Nothing is cached yet.
      split
      · next node position found =>
        have reached : IsCheckpoint rules chain node := by
          obtain ⟨⟨checkpoint, index⟩, member, found⟩ := List.exists_of_findSome?_eq_some found
          dsimp only at found
          split at found
          · cases found
          · next other looked =>
            split at found
            · cases found
              exact isCheckpoint (List.fst_mem_of_mem_zipIdx (List.mem_reverse.mp member)) looked
            · cases found
        exact ⟨⟨only reached, fun checkpoint next => List.mem_of_getElem? next⟩, some node, rfl,
          only reached⟩
      · refine ⟨⟨invariant.reached, ?_⟩, none, rfl, by rintro _ ⟨⟩⟩
        intro checkpoint next
        cases next
        rw [checkpoints]
        exact .head _
    · next node cached _ =>
      exact ⟨invariant, some node, rfl, only (invariant.reached node cached)⟩
    · next next cached =>
      have member := invariant.next next cached
      split
      · exact ⟨invariant, _, rfl, invariant.reached⟩
      · next above =>
        obtain ⟨nonneg, agree⟩ := agrees next member
        obtain ⟨ancestor, below, atHeight⟩ := exists_ancestor_of_height nonneg above
        have known := tree.ancestors_known tree.tip below
        have found : lookupNode chain next.hash = some ancestor := by
          rw [← agree ancestor known atHeight]
          exact known
        rw [found]
        have reached := isCheckpoint member found
        refine ⟨⟨only reached, ?_⟩, some ancestor, rfl, only reached⟩
        intro checkpoint following
        obtain ⟨_, _, following⟩ := Option.bind_eq_some_iff.mp following
        exact List.mem_of_getElem? following

end Reached

end ModelOS.BlockChain
