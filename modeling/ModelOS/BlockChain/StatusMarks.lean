import ModelOS.BlockChain.BlockTree

namespace ModelOS.BlockChain

open Data Wire ZkPow

/-! What changes when the statuses of some blocks are set, and which blocks
`getReorganizeNodes` marks. -/

variable {rules : ChainRules} {chain middle after : Chain}
  {node fork other : BlockNode} {change : BlockNode → BlockStatus → BlockStatus}

/-- Only statuses differ, each as the change of its node says. -/
structure Restated (before after : Chain)
    (change : BlockNode → BlockStatus → BlockStatus) : Prop where
  rest : after = { before with index := after.index }
  index : ∀ hash, after.index hash = (before.index hash).map fun entry =>
    { entry with status := change entry.node entry.status }

namespace Restated

theorem refl : Restated chain chain fun _ status => status := by
  refine ⟨rfl, fun hash => ?_⟩
  cases chain.index hash with
  | none => rfl
  | some entry => rfl

theorem trans
    (before : Restated chain middle change) (later : Restated middle after second) :
    Restated chain after fun node status => second node (change node status) := by
  constructor
  · rw [later.rest, before.rest]
  · intro hash
    rw [later.index, before.index, Option.map_map]
    rfl

theorem congr
    (restated : Restated chain after change)
    (same : ∀ node status, change node status = second node status) :
    Restated chain after second := by
  have : change = second := funext fun node => funext fun status => same node status
  rw [← this]
  exact restated

theorem nodes (restated : Restated chain after change) : SameNodes chain after := by
  intro hash
  rw [lookupNode, restated.index, Option.map_map]
  rfl

theorem tip (restated : Restated chain after change) : after.tip = chain.tip := by
  rw [restated.rest]

theorem status (restated : Restated chain after change) (known : Known rules chain node) :
    nodeStatus rules after node = change node (nodeStatus rules chain node) := by
  obtain ⟨entry, found, isNode⟩ := exists_entry_of_lookupNode known
  simp only [nodeStatus, restated.index, found, Option.map_some, Option.getD_some, isNode]

theorem of_index {lower lowered : Chain} (restated : Restated chain after change)
    (index : lower.index = chain.index) (rest : lowered = { lower with index := after.index }) :
    Restated lower lowered change := by
  constructor
  · rw [rest]
  · intro hash
    rw [rest, index]
    exact restated.index hash

end Restated

def HashKeyed (rules : ChainRules) (chain : Chain) : Prop :=
  ∀ hash node, lookupNode chain hash = some node → node.hash rules.sha256d = hash

theorem Restated.keyed (restated : Restated chain after change)
    (keyed : HashKeyed rules chain) : HashKeyed rules after :=
  fun hash node found => keyed hash node ((restated.nodes hash).symm.trans found)

theorem restated_setStatusFlags (keyed : HashKeyed rules chain)
    (known : Known rules chain node) (flags : BlockStatus → BlockStatus) :
    Restated chain (setStatusFlags rules chain node flags)
      fun other status => if other = node then flags status else status := by
  refine ⟨rfl, fun hash => ?_⟩
  simp only [setStatusFlags]
  rcases eq_or_ne hash (node.hash rules.sha256d) with rfl | distinct
  · obtain ⟨entry, found, isNode⟩ := exists_entry_of_lookupNode known
    simp [found, isNode]
  · rw [Function.update_of_ne distinct]
    cases found : chain.index hash with
    | none => rfl
    | some entry =>
      have hashes := keyed hash entry.node (by rw [lookupNode, found]; rfl)
      have apart : entry.node ≠ node := by
        rintro rfl
        exact distinct hashes.symm
      simp [apart]

theorem Restated.offChain (tree : TreeInvariant rules chain)
    (restated : Restated chain after change)
    (keeps : ∀ node ∈ chain.tip.ancestors, ∀ status, change node status = status) :
    OffChain rules chain after := by
  refine ⟨restated.nodes, restated.tip, fun node member => ?_⟩
  rw [restated.status (tree.ancestors_known tree.tip member), keeps node member]

theorem restated_setAllFlags (keyed : HashKeyed rules chain)
    {nodes : List BlockNode} {flags : BlockStatus → BlockStatus}
    (known : ∀ node ∈ nodes, Known rules chain node)
    (idempotent : ∀ status, flags (flags status) = flags status) :
    Restated chain (setAllFlags rules chain nodes flags)
      fun other status => if other ∈ nodes then flags status else status := by
  induction nodes generalizing chain with
  | nil => exact Restated.refl.congr fun _ _ => (if_neg List.not_mem_nil).symm
  | cons node rest ih =>
    have first := restated_setStatusFlags keyed (known node (.head _)) flags
    have others := ih (first.keyed keyed) fun other member =>
      (known other (.tail _ member)).of_sameNodes first.nodes
    refine (first.trans others).congr fun other status => ?_
    by_cases isNode : other = node
    · by_cases later : other ∈ rest
      · simp [isNode, isNode ▸ later, idempotent]
      · simp [isNode, isNode ▸ later]
    · simp [isNode]

/-- Marking blocks that are not clean changes nothing about which branches are. -/
theorem TreeInvariant.sameClean_setAllFlags (tree : TreeInvariant rules chain)
    (known : ∀ node ∈ nodes, Known rules chain node)
    (unclean : ∀ node ∈ nodes, ¬ Clean rules chain node) :
    SameClean rules chain (setAllFlags rules chain nodes statusInvalidAncestor) := by
  have restated := @restated_setAllFlags rules chain tree.hash nodes
    statusInvalidAncestor known fun _ => rfl
  intro other otherKnown
  have status : ∀ ancestor ∈ other.ancestors, _ := fun ancestor member =>
    restated.status (tree.ancestors_known otherKnown member)
  constructor
  · intro clean ancestor member
    by_contra invalid
    have marked := clean ancestor member
    rw [status ancestor member] at marked
    split at marked
    · rw [knownInvalid_statusInvalidAncestor] at marked
      cases marked
    · exact invalid marked
  · intro clean ancestor member
    have unmarked : ancestor ∉ nodes := fun listed =>
      unclean ancestor listed (clean.of_mem member)
    rw [status ancestor member, if_neg unmarked]
    exact clean ancestor member

theorem BlockNode.eq_of_mem_ancestors (below : fork ∈ node.ancestors)
    (above : node ∈ fork.ancestors) : fork = node := by
  have path := ancestors_eq_nodesAbove below
  have length := congrArg List.length path
  have shorter := length_ancestors_le above
  rw [List.length_append] at length
  have empty : nodesAbove (some fork) node = [] := List.eq_nil_of_length_eq_zero (by omega)
  rw [empty, List.nil_append] at path
  exact (ancestors_injective path).symm

theorem mem_nodesAbove_iff (below : fork ∈ node.ancestors) : other ∈ nodesAbove (some fork) node ↔
      other ∈ node.ancestors ∧ fork ∈ other.ancestors ∧ other ≠ fork := by
  have path := BlockNode.ancestors_eq_nodesAbove below
  constructor
  · intro member
    have distinct : other ≠ fork := by
      have passes := List.mem_takeWhile_imp member
      simpa using passes
    refine ⟨(List.takeWhile_subset _) member, ?_, distinct⟩
    cases ancestors : fork.ancestors with
    | nil => exact absurd ancestors BlockNode.ancestors_ne_nil
    | cons first rest =>
      rw [ancestors, BlockNode.eq_of_ancestors_eq_cons ancestors] at path
      exact BlockNode.mem_ancestors_of_append path member
  · rintro ⟨member, above, distinct⟩
    rw [path] at member
    refine (List.mem_append.mp member).resolve_right ?_
    intro lower
    exact distinct (BlockNode.eq_of_mem_ancestors lower above)

/-- The node lies on the branch of the tip, and neither it nor a block above it is
known to be invalid. -/
def Exposed (rules : ChainRules) (chain : Chain) (tip node : BlockNode) : Prop :=
  node ∈ tip.ancestors ∧ ∀ between ∈ tip.ancestors, node ∈ between.ancestors →
    (nodeStatus rules chain between).knownInvalid = false

theorem mem_takeWhile_ancestors_iff {tip : BlockNode} :
    node ∈ tip.ancestors.takeWhile keeps ↔ node ∈ tip.ancestors ∧
      ∀ between ∈ tip.ancestors, node ∈ between.ancestors → keeps between = true := by
  induction tip with
  | genesis block =>
    simp only [BlockNode.ancestors, List.takeWhile_cons, List.takeWhile_nil,
      List.mem_singleton, forall_eq]
    split
    · next kept => simp [kept]
    · next dropped =>
      constructor
      · rintro ⟨⟩
      · rintro ⟨rfl, kept⟩
        exact absurd (kept rfl) dropped
  | child parent block ih =>
    rw [BlockNode.ancestors, List.takeWhile_cons]
    have own : node ∈ BlockNode.child parent block :: parent.ancestors →
        node ∈ (BlockNode.child parent block).ancestors := id
    split
    · next kept =>
      rw [List.mem_cons, ih, List.mem_cons]
      constructor
      · rintro (rfl | ⟨below, between⟩)
        · refine ⟨.inl rfl, ?_⟩
          intro between member above
          rcases List.mem_cons.mp member with rfl | lower
          · exact kept
          · exact absurd (BlockNode.mem_ancestors_trans lower above)
              BlockNode.child_not_mem_ancestors
        · exact ⟨.inr below, List.forall_mem_cons.mpr ⟨fun _ => kept, between⟩⟩
      · rintro ⟨isNode | below, between⟩
        · exact .inl isNode
        · exact .inr ⟨below, (List.forall_mem_cons.mp between).2⟩
    · next dropped =>
      constructor
      · rintro ⟨⟩
      · rintro ⟨member, between⟩
        exact absurd (between _ List.mem_cons_self (own member)) dropped

/-- The blocks that are marked lie above an invalid one; when the tip itself is not
known to be invalid, they are the exposed ones. -/
theorem getReorganizeNodes_marks (tree : TreeInvariant rules chain)
    (known : Known rules chain (.child parent block))
    (unclean : ¬ Clean rules chain (.child parent block)) :
    ∃ marked, getReorganizeNodes rules chain parent (.child parent block) =
        (setAllFlags rules chain marked statusInvalidAncestor, [], []) ∧
      (∀ other ∈ marked, other ∈ (BlockNode.child parent block).ancestors ∧
        ∃ ancestor ∈ other.ancestors, ancestor ≠ other ∧
          (nodeStatus rules chain ancestor).knownInvalid = true) ∧
      ((nodeStatus rules chain (.child parent block)).knownInvalid = false →
        ∀ other, other ∈ marked ↔ Exposed rules chain (.child parent block) other) := by
  rw [getReorganizeNodes]
  split
  · next invalid =>
    have proper : parent ≠ .child parent block := by
      intro same
      have self : BlockNode.child parent block ∈ parent.ancestors := by
        rw [← same]
        exact BlockNode.self_mem_ancestors
      exact BlockNode.child_not_mem_ancestors self
    have below : parent ∈ (BlockNode.child parent block).ancestors :=
      .tail _ BlockNode.self_mem_ancestors
    refine ⟨[.child parent block], rfl, ?_, ?_⟩
    · intro other member
      rw [List.mem_singleton.mp member]
      exact ⟨BlockNode.self_mem_ancestors, parent, below, proper, invalid⟩
    · intro clean other
      rw [List.mem_singleton, Exposed]
      constructor
      · rintro rfl
        refine ⟨BlockNode.self_mem_ancestors, ?_⟩
        intro between member above
        rw [BlockNode.eq_of_mem_ancestors member above]
        exact clean
      · rintro ⟨member, exposed⟩
        refine (List.mem_cons.mp member).resolve_right ?_
        intro lower
        rw [exposed parent below lower] at invalid
        cases invalid
  · obtain ⟨fork, found, onChain, common⟩ := tree.exists_findFork known
    have some : (nodesAbove (some fork) (.child parent block)).any
        (fun node => (nodeStatus rules chain node).knownInvalid) = true := by
      rw [tree.clean_iff_nodesAbove onChain common] at unclean
      simpa using unclean
    dsimp only
    rw [found, if_pos some]
    refine ⟨_, rfl, ?_, ?_⟩
    · intro other member
      rw [List.mem_reverse] at member
      have clean := List.mem_takeWhile_imp member
      obtain ⟨ancestor, below, invalid⟩ := not_clean_iff.mp
        (not_clean_of_mem_takeWhile (BlockNode.ancestors_eq_nodesAbove common) some member)
      refine ⟨(List.takeWhile_subset _) ((List.takeWhile_subset _) member), ancestor,
        below, ?_, invalid⟩
      rintro rfl
      simp [invalid] at clean
    · intro _ other
      rw [List.mem_reverse, nodesAbove, List.takeWhile_takeWhile,
        mem_takeWhile_ancestors_iff, Exposed]
      refine and_congr_right fun member => ?_
      constructor
      · intro between upper upperMember above
        have passes := between upper upperMember above
        simp only [Bool.not_eq_true', ne_eq, decide_eq_true_eq, decide_not] at passes
        simpa using passes.1
      · intro exposed upper upperMember above
        have distinct : upper ≠ fork := by
          -- Otherwise the whole branch would be clean.
          rintro rfl
          refine unclean ((tree.clean_iff_nodesAbove onChain common).mpr ?_)
          intro ancestor aboveFork
          obtain ⟨mem, overFork, _⟩ := (mem_nodesAbove_iff common).mp aboveFork
          exact exposed ancestor mem (BlockNode.mem_ancestors_trans overFork above)
        simp [exposed upper upperMember above, distinct]

theorem getReorganizeNodes_of_not_clean (tree : TreeInvariant rules chain)
    (known : Known rules chain (.child parent block))
    (unclean : ¬ Clean rules chain (.child parent block)) :
    ∃ after, getReorganizeNodes rules chain parent (.child parent block) = (after, [], []) ∧
      OffChain rules chain after ∧ Grows rules chain after ∧ SameClean rules chain after := by
  obtain ⟨marked, nodes, above, _⟩ := getReorganizeNodes_marks tree known unclean
  have markedKnown : ∀ node ∈ marked, Known rules chain node :=
    fun node member => tree.ancestors_known known (above node member).1
  have dirty : ∀ node ∈ marked, ¬ Clean rules chain node := by
    intro node member
    obtain ⟨_, ancestor, below, _, invalid⟩ := above node member
    exact not_clean_iff.mpr ⟨ancestor, below, invalid⟩
  refine ⟨_, nodes, tree.offChain_setAllInvalid markedKnown ?_,
    .setAllInvalidAncestor markedKnown fun node member => (above node member).2,
    tree.sameClean_setAllFlags markedKnown dirty⟩
  exact fun node member onChain => dirty node member (tree.clean_tip.of_mem onChain)

end ModelOS.BlockChain
