import ModelOS.BlockChain.InvalidateBlock

namespace ModelOS.BlockChain

open Data Wire ZkPow

variable {rules : ChainRules} {chain middle after : Chain}
  {node other tip last : BlockNode} {walk : List BlockNode}
  {change : BlockNode → BlockStatus → BlockStatus}

def Leaf (rules : ChainRules) (chain : Chain) (tip : BlockNode) : Prop :=
  Known rules chain tip ∧ ∀ block, ¬ Known rules chain (.child tip block)

/-- Every block of the branch connects to the one below it. -/
def SoundBranch (rules : ChainRules) (node : BlockNode) : Prop :=
  ∀ parent block, BlockNode.child parent block ∈ node.ancestors → AlwaysConnects rules parent block

/-- The branch holds no block that is known to be invalid, and none that would turn
out to be. -/
def FullyValid (rules : ChainRules) (chain : Chain) (node : BlockNode) : Prop :=
  Clean rules chain node ∧ SoundBranch rules node

structure Reconsidered (rules : ChainRules) (after : Chain) (node : BlockNode) : Prop where
  unflagged : ∀ other, Known rules after other → node ∈ other.ancestors →
    (nodeStatus rules after other).invalidAncestor = true → HasReason rules after other
  settled : ∀ tip, Leaf rules after tip → node ∈ tip.ancestors →
    FullyValid rules after tip → overtakes after.tip tip = false

theorem SoundBranch.of_mem (sound : SoundBranch rules node)
    (below : other ∈ node.ancestors) : SoundBranch rules other :=
  fun parent block member =>
    sound parent block (BlockNode.mem_ancestors_trans below member)

theorem leaf_iff_of_sameNodes (nodes : SameNodes chain after) :
    Leaf rules after tip ↔ Leaf rules chain tip := by
  simp only [Leaf, Known, nodes _]

/-- The same known branches are fully valid. -/
def SameFullyValid (rules : ChainRules) (before after : Chain) : Prop :=
  ∀ node, Known rules before node → (FullyValid rules after node ↔ FullyValid rules before node)

namespace SameFullyValid

theorem of_sameClean (same : SameClean rules chain after) : SameFullyValid rules chain after :=
  fun node known => and_congr_left fun _ => same node known

theorem trans (nodes : SameNodes chain middle) (first : SameFullyValid rules chain middle)
    (second : SameFullyValid rules middle after) : SameFullyValid rules chain after :=
  fun node known => (second node (known.of_sameNodes nodes)).trans (first node known)

theorem of_restated (invariant : ChainInvariant rules chain)
    (restated : Restated chain after change)
    (keeps : ∀ node, (nodeStatus rules chain node).knownInvalid = true →
      (nodeStatus rules after node).knownInvalid = true)
    (untouched : ∀ node, SoundBranch rules node → ∀ status, change node status = status) :
    SameFullyValid rules chain after := by
  intro node known
  refine and_congr_left fun sound => ?_
  constructor
  · intro clean ancestor below
    refine Bool.eq_false_iff.mpr fun invalid => ?_
    have still := keeps ancestor invalid
    rw [clean ancestor below] at still
    cases still
  · intro clean ancestor below
    rw [restated.status (invariant.ancestors_indexed known below),
      untouched ancestor (sound.of_mem below)]
    exact clean ancestor below

end SameFullyValid

variable {attach above : List BlockNode}

theorem Attaches.fullyValid
    (attaches : Attaches rules chain attach outcome) (invariant : ChainInvariant rules chain) :
    SameFullyValid rules chain outcome.1 := by
  induction attaches with
  | ended => exact fun _ _ => Iff.rfl
  | stopped => exact fun _ _ => Iff.rfl
  | known _ _ ih => exact ih invariant
  | passed _ _ marked _ ih =>
    exact .trans (lookupNode_setStatusFlags statusValid)
      (.of_sameClean sameInvalid_statusValid.sameClean) (ih marked)
  | @failed chain base _ block rest view _ _ branch indexed utxos best checked =>
    have here := indexed _ (.head _)
    have others : ∀ node ∈ rest, Known rules chain node :=
      fun node member => indexed node (.tail _ member)
    have keyed : HashKeyed rules chain := by
      intro hash node found
      obtain ⟨entry, present, rfl⟩ := exists_entry_of_lookupNode found
      exact invariant.hash hash entry present
    have unsound : ∀ other, .child base block ∈ other.ancestors → ¬ SoundBranch rules other := by
      intro other above sound
      obtain ⟨_, passes⟩ := sound base block above view best utxos
      rw [checked] at passes
      cases passes
    have first := restated_setStatusFlags keyed here statusValidateFailed
    have marks := restated_setAllFlags (first.keyed keyed)
      (fun node member => (others node member).of_sameNodes first.nodes)
      statusInvalidAncestor_idempotent
    refine .of_restated invariant (first.trans marks)
      (Grows.failedBlock branch here others).keeps ?_
    intro other sound status
    have apart : .child base block ∉ other.ancestors :=
      fun above => unsound other above sound
    have distinct : other ≠ .child base block := by
      rintro rfl
      exact apart BlockNode.self_mem_ancestors
    have unmarked : other ∉ rest := fun member =>
      apart (branch.mem_ancestors member).1
    rw [if_neg unmarked, if_neg distinct]

theorem verifyReorganizationValidity_fullyValid (invariant : ChainInvariant rules chain)
    (plan : ReorganizePlan rules chain detach attach) :
    SameFullyValid rules chain (verifyReorganizationValidity rules chain detach attach).1 := by
  obtain ⟨_, _, attaches, verified⟩ := attaches_verifyReorganizationValidity invariant plan
  rw [verified]
  exact attaches.fullyValid invariant

/-- The node's own flags are cleared, and the mark of an invalid ancestor on the
listed nodes above it. -/
def clearance (node : BlockNode) (above : List BlockNode) (other : BlockNode)
    (status : BlockStatus) : BlockStatus :=
  if other = node then unsetValidateFailed (unsetInvalidAncestor status)
  else if other ∈ above then unsetInvalidAncestor status
  else status

theorem valid_clearance :
    (clearance node above other status).valid = status.valid := by
  unfold clearance
  split
  · rfl
  · split
    · rfl
    · rfl

/-- The branch of the tip, once the node's flags and the marks above it are cleared,
holds no block that is known to be invalid. -/
def Restorable (rules : ChainRules) (chain : Chain) (node tip : BlockNode) : Prop :=
  ∀ other ∈ tip.ancestors, other ≠ node → (nodeStatus rules chain other).validateFailed = false ∧
      (node ∉ other.ancestors → (nodeStatus rules chain other).invalidAncestor = false)

/-- The flags of the node are cleared, and the marks on all that is known above it. -/
structure Cleared (rules : ChainRules) (chain : Chain) (node : BlockNode)
    (above : List BlockNode) (after : Chain) : Prop where
  restated : Restated chain after (clearance node above)
  mem : ∀ other, other ∈ above ↔ Known rules chain other ∧ node ∈ other.ancestors ∧ other ≠ node

theorem cleared_clearInvalid (tree : TreeInvariant rules chain)
    (walks : Walks rules chain walk) (known : Known rules chain node) :
    Cleared rules chain node (branchesAbove node (inactiveTips chain walk ++ [chain.tip]))
      (clearInvalid rules chain (inactiveTips chain walk ++ [chain.tip]) node) := by
  have tipsKnown : ∀ tip ∈ inactiveTips chain walk ++ [chain.tip], Known rules chain tip := by
    intro tip member
    rcases List.mem_append.mp member with inactive | active
    · exact ((mem_inactiveTips_iff walks).mp inactive).1
    · rw [List.mem_singleton.mp active]
      exact tree.tip
  have mem : ∀ other, other ∈ branchesAbove node (inactiveTips chain walk ++ [chain.tip]) ↔
      Known rules chain other ∧ node ∈ other.ancestors ∧ other ≠ node := by
    intro other
    rw [mem_branchesAbove_iff, isAncestor_iff]
    constructor
    · rintro ⟨⟨above, distinct⟩, tip, isTip, below⟩
      exact ⟨tree.ancestors_known (tipsKnown tip isTip) below, above, distinct.symm⟩
    · rintro ⟨otherKnown, above, distinct⟩
      exact ⟨⟨above, distinct.symm⟩, exists_tip_above walks otherKnown⟩
  have first := restated_setStatusFlags tree.hash known unsetInvalidAncestor
  have second := restated_setStatusFlags (first.keyed tree.hash)
    (known.of_sameNodes first.nodes) unsetValidateFailed
  have both := first.trans second
  have others := @restated_setAllFlags rules _ (both.keyed tree.hash) _ unsetInvalidAncestor
    (fun other member => ((mem other).mp member).1.of_sameNodes both.nodes) (fun _ => rfl)
  refine ⟨?_, mem⟩
  rw [clearInvalid, foldl_branches]
  refine (both.trans others).congr fun other status => ?_
  unfold clearance
  by_cases isNode : other = node
  · have apart := mt (mem other).mp fun proper => proper.2.2 isNode
    simp [isNode, isNode ▸ apart]
  · simp [isNode]

namespace Cleared

variable {above : List BlockNode}

variable (cleared : Cleared rules chain node above after)
include cleared

theorem status (known : Known rules chain other) :
    nodeStatus rules after other = clearance node above other (nodeStatus rules chain other) :=
  cleared.restated.status known

theorem knownInvalid_eq
    (known : Known rules chain other) : (nodeStatus rules after other).knownInvalid = true ↔
      other ≠ node ∧ ((nodeStatus rules chain other).validateFailed = true ∨
        node ∉ other.ancestors ∧
          (nodeStatus rules chain other).invalidAncestor = true) := by
  rw [cleared.status known, clearance]
  split
  · next isNode =>
    simp [isNode, unsetValidateFailed, unsetInvalidAncestor, BlockStatus.knownInvalid]
  · next distinct =>
    have member := cleared.mem other
    by_cases isAbove : node ∈ other.ancestors
    · simp [member, known, distinct, isAbove, unsetInvalidAncestor, BlockStatus.knownInvalid]
    · simp [member, distinct, isAbove, BlockStatus.knownInvalid]

theorem clean_iff (tree : TreeInvariant rules chain) (known : Known rules chain tip) :
    Clean rules after tip ↔ Restorable rules chain node tip := by
  refine forall₂_congr fun other below => ?_
  rw [← Bool.not_eq_true, cleared.knownInvalid_eq (tree.ancestors_known known below)]
  simp only [not_and, not_or, Bool.not_eq_true]

theorem unchanged (apart : node ∉ other.ancestors) (status : BlockStatus) :
    clearance node above other status = status := by
  have distinct : other ≠ node := by
    rintro rfl
    exact apart BlockNode.self_mem_ancestors
  have unmarked := mt (cleared.mem other).mp fun proper => apart proper.2.1
  rw [clearance, if_neg distinct, if_neg unmarked]

theorem justified
    (tree : TreeInvariant rules chain) (holds : Justified rules chain) : Justified rules after := by
  intro other knownAfter marked
  have known : Known rules chain other := (cleared.restated.nodes _).symm.trans knownAfter
  rw [cleared.status known] at marked
  by_cases isAbove : node ∈ other.ancestors
  · have unmarked : (clearance node above other
        (nodeStatus rules chain other)).invalidAncestor = false := by
      unfold clearance
      split
      · rfl
      · next distinct =>
        rw [if_pos ((cleared.mem other).mpr ⟨known, isAbove, distinct⟩)]
        rfl
    rw [unmarked] at marked
    cases marked
  · rw [cleared.unchanged isAbove] at marked
    obtain ⟨ancestor, below, proper, invalid⟩ := holds other known marked
    refine ⟨ancestor, below, proper, ?_⟩
    rw [cleared.status (tree.ancestors_known known below), cleared.unchanged
      fun lower => isAbove (BlockNode.mem_ancestors_trans below lower)]
    exact invalid

theorem invariant (holds : NodeInvariant rules chain) (off : node ∉ chain.tip.ancestors) :
    NodeInvariant rules after := by
  have keeps : ∀ other ∈ chain.tip.ancestors, ∀ status,
      clearance node above other status = status := by
    intro other below
    exact cleared.unchanged fun member => off (BlockNode.mem_ancestors_trans below member)
  refine ⟨holds.ledger.of_restated cleared.restated ?_ keeps,
    holds.tree.of_offChain (cleared.restated.offChain holds.tree keeps)⟩
  intro other status valid
  rw [valid_clearance] at valid
  exact valid

end Cleared

/-- The blocks of the branch count as valid or connect to the ones below them. -/
def BranchConnects (rules : ChainRules) (chain : Chain) (tip : BlockNode) : Prop :=
  ∀ parent block, BlockNode.child parent block ∈ tip.ancestors →
    (nodeStatus rules chain (.child parent block)).valid = true ∨ PassesConnect rules parent block

theorem Cleared.branchConnects_iff (cleared : Cleared rules chain node above after)
    (tree : TreeInvariant rules chain) (known : Known rules chain tip) :
    BranchConnects rules after tip ↔ BranchConnects rules chain tip := by
  refine forall₃_congr fun parent block below => ?_
  rw [cleared.status (tree.ancestors_known known below), valid_clearance]

/-- Checking the blocks to attach goes through exactly when those that do not count as
valid connect. -/
theorem Attaches.eq_ok_iff (attaches : Attaches rules chain attach outcome)
    (reads : ReadsInputs rules) (indexed : ∀ node ∈ attach, Known rules chain node) :
    outcome.2 = .ok () ↔ ∀ parent block, BlockNode.child parent block ∈ attach →
      (nodeStatus rules chain (.child parent block)).valid = true ∨
        PassesConnect rules parent block := by
  induction attaches with
  | ended => exact ⟨by rintro _ _ _ ⟨⟩, fun _ => rfl⟩
  | stopped notValid utxos best checked | failed notValid _ _ utxos best checked =>
    refine ⟨by rintro ⟨⟩, fun connects => ?_⟩
    have passes := (connects _ _ (.head _)).resolve_left notValid
    exact absurd (passes.alwaysConnects reads) (not_alwaysConnects best utxos checked)
  | known valid _ ih =>
    rw [ih fun node member => indexed node (.tail _ member)]
    refine ⟨fun connects parent block member => ?_, fun connects parent block member =>
      connects parent block (.tail _ member)⟩
    rcases List.mem_cons.mp member with rfl | later
    · exact .inl valid
    · exact connects parent block later
  | @passed chain base block rest _ passes here _ _ ih =>
    have others : ∀ node ∈ rest, Known rules chain node :=
      fun node member => indexed node (.tail _ member)
    rw [ih fun node member => (others node member).of_sameNodes (lookupNode_setStatusFlags _)]
    have marked : ∀ parent below, BlockNode.child parent below ∈ rest →
        PassesConnect rules parent below ∨
          nodeStatus rules (setStatusFlags rules chain (.child base block) statusValid)
            (.child parent below) = nodeStatus rules chain (.child parent below) := by
      intro parent below member
      by_cases same : (BlockNode.child parent below).hash rules.sha256d =
          (BlockNode.child base block).hash rules.sha256d
      · obtain ⟨rfl, rfl⟩ := BlockNode.child.inj ((others _ member).eq_of_hash_eq here same)
        exact .inl passes
      · exact .inr (nodeStatus_setStatusFlags_of_ne same)
    constructor
    · intro connects parent below member
      rcases List.mem_cons.mp member with isNode | later
      · obtain ⟨rfl, rfl⟩ := BlockNode.child.inj isNode
        exact .inr passes
      · rcases marked parent below later with connected | same
        · exact .inr connected
        · rw [← same]
          exact connects parent below later
    · intro connects parent below later
      rcases marked parent below later with connected | same
      · exact .inr connected
      · rw [same]
        exact connects parent below (.tail _ later)

theorem Branch.mem_ancestors_iff (branch : Branch base attach last) :
    other ∈ last.ancestors ↔ other ∈ attach ∨ other ∈ base.ancestors := by
  induction attach generalizing base with
  | nil =>
    obtain rfl : base = last := branch
    simp
  | cons node rest ih =>
    obtain ⟨⟨block, rfl⟩, branch⟩ := branch
    rw [ih branch, BlockNode.ancestors, List.mem_cons, List.mem_cons, or_left_comm, or_assoc]

/-- The dry run of a reorganisation passes exactly when the new branch connects. -/
theorem TreePlan.verifies_iff (plan : TreePlan rules chain detach attach last)
    (reads : ReadsInputs rules) (invariant : NodeInvariant rules chain) :
    (∃ journals, (verifyReorganizationValidity rules chain detach attach).2 = .ok journals) ↔
      BranchConnects rules chain last := by
  obtain ⟨_, verdict, attaches, verified⟩ :=
    attaches_verifyReorganizationValidity invariant.ledger plan.reorganizePlan
  have passed := attaches.eq_ok_iff reads plan.known
  obtain ⟨fork, path, branch⟩ := plan.meets
  have verdicts : (∃ journals, (verifyReorganizationValidity rules chain detach attach).2 =
      .ok journals) ↔ verdict = .ok () := by
    rw [verified]
    cases verdict with
    | error error => exact ⟨by rintro ⟨_, ⟨⟩⟩, by rintro ⟨⟩⟩
    | ok => exact ⟨fun _ => rfl, fun _ => ⟨_, rfl⟩⟩
  rw [verdicts, passed]
  constructor
  · intro connects parent block below
    rcases branch.mem_ancestors_iff.mp below with member | lower
    · exact connects parent block member
    · refine .inl (invariant.tree.best _ ?_).1
      rw [path]
      exact List.mem_append_right _ lower
  · intro connects parent block member
    exact connects parent block (branch.mem_ancestors_iff.mpr (.inl member))

theorem reconsiderTip_concat : reconsiderTip node (tips ++ [tip]) =
      if node ∈ tip.ancestors then some tip else reconsiderTip node tips := by
  have condition : (isAncestor tip node = true ∨ tip = node) ↔ node ∈ tip.ancestors := by
    rw [isAncestor_iff]
    constructor
    · rintro (proper | rfl)
      · exact proper.1
      · exact BlockNode.self_mem_ancestors
    · intro below
      by_cases isNode : tip = node
      · exact .inr isNode
      · exact .inl ⟨below, Ne.symm isNode⟩
  rw [reconsiderTip, List.foldl_append]
  simp only [List.foldl_cons, List.foldl_nil, condition]
  rfl

theorem reconsiderTip_spec {tips : List BlockNode} :
    (∃ last, reconsiderTip node tips = some last ∧ last ∈ tips ∧ node ∈ last.ancestors) ∨
      reconsiderTip node tips = none ∧ ∀ tip ∈ tips, node ∉ tip.ancestors := by
  induction tips using List.reverseRecOn with
  | nil => exact .inr ⟨rfl, by rintro _ ⟨⟩⟩
  | append_singleton front last ih =>
    rw [reconsiderTip_concat]
    split
    · next below =>
      exact .inl ⟨last, rfl, List.mem_append_right _ (List.mem_singleton_self _), below⟩
    · next apart =>
      rcases ih with ⟨tip, found, member, below⟩ | ⟨missing, none⟩
      · exact .inl ⟨tip, found, List.mem_append_left _ member, below⟩
      · refine .inr ⟨missing, ?_⟩
        intro tip member
        rcases List.mem_append.mp member with earlier | isLast
        · exact none tip earlier
        · rw [List.mem_singleton.mp isLast]
          exact apart

theorem TreePlan.of_sameInvalid
    (plan : TreePlan rules chain detach attach last) (change : OffChain rules chain after)
    (same : SameInvalid rules chain after) : TreePlan rules after detach attach last := by
  refine ⟨?_, fun node member => (plan.known node member).of_sameNodes change.nodes, ?_, ?_⟩
  · rw [change.tip]
    exact plan.meets
  · rw [change.tip]
    exact plan.off
  · intro node member
    rw [same.knownInvalid]
    exact plan.clean node member

/-- Trying a branch: the tip moves to its end exactly when the branch is clean and
connects. -/
theorem reconsiderBranch_spec (invariant : NodeInvariant rules chain)
    (known : Known rules chain last) (off : last ∉ chain.tip.ancestors) :
    ∃ after result, reconsiderBranch rules chain last = (after, result) ∧
      NodeInvariant rules after ∧ Grows rules chain after ∧
      (result = .ok () → SameFullyValid rules chain after ∧ (ReadsInputs rules →
        (Clean rules chain last ∧ BranchConnects rules chain last) ∧ after.tip = last ∨
          ¬ (Clean rules chain last ∧ BranchConnects rules chain last) ∧
            after.tip = chain.tip)) := by
  have tree := invariant.tree
  obtain ⟨parent, block, rfl⟩ := tree.exists_child known off
  by_cases clean : Clean rules chain (.child parent block)
  · have plan := treePlan_of_clean tree known clean
    have fullyValid := verifyReorganizationValidity_fullyValid invariant.ledger plan.reorganizePlan
    obtain ⟨_, _, ledgerEnds, ledger, _⟩ :=
      verifyReorganizationValidity_spec invariant.ledger plan.reorganizePlan
    obtain ⟨verified, result, verification, change, grows, passed⟩ :=
      verifyReorganizationValidity_tree tree plan
    rw [verification] at ledgerEnds fullyValid
    obtain ⟨rfl, rfl⟩ := Prod.mk.inj ledgerEnds
    have holds : NodeInvariant rules verified := ⟨ledger, tree.of_offChain change⟩
    have verifies : ReadsInputs rules → ((∃ journals, result = .ok journals) ↔
        BranchConnects rules chain (.child parent block)) := by
      intro reads
      rw [← plan.verifies_iff reads invariant, verification]
    simp only [reconsiderBranch, getReorganizeNodes_eq_of_clean tree known clean, verification]
    cases result with
    | error error =>
      refine ⟨_, _, rfl, holds, grows, fun _ => ⟨fullyValid, fun reads => .inr ⟨?_, change.tip⟩⟩⟩
      rintro ⟨_, connects⟩
      obtain ⟨journals, passes⟩ := (verifies reads).mpr connects
      cases passes
    | ok journals =>
      obtain ⟨_, same, _⟩ := passed journals rfl
      obtain ⟨after, result, ended, holdsAfter, growsOn, reaches⟩ :=
        holds.reorganize (plan.of_sameInvalid change same)
      refine ⟨_, _, ended, holdsAfter, grows.trans growsOn, fun isOk => ?_⟩
      obtain ⟨moved, sameAfter⟩ := reaches isOk
      refine ⟨.trans change.nodes fullyValid (.of_sameClean sameAfter.sameClean),
        fun reads => .inl ⟨⟨clean, (verifies reads).mp ⟨journals, rfl⟩⟩, moved⟩⟩
  · obtain ⟨after, nodes, holds, grows, sameClean, stays, _⟩ := invariant.notClean known clean
    refine ⟨after, .ok (), ?_, holds, grows, fun _ => ⟨.of_sameClean sameClean,
      fun _ => .inr ⟨fun both => clean both.1, stays⟩⟩⟩
    rw [reconsiderBranch, nodes]
    rfl

/-- No tip above the node that could be used, now or with the flags cleared, overtakes
a given one. -/
def SettledOn (rules : ChainRules) (chain : Chain) (node : BlockNode)
    (usable : BlockNode → Prop) (active : BlockNode) : Prop :=
  ∀ tip, Leaf rules chain tip → node ∈ tip.ancestors → usable tip →
    SoundBranch rules tip → overtakes active tip = false

/-- The tip that is tried overtakes the active one, and its branch can be used. -/
def Takes (rules : ChainRules) (chain : Chain) (node last : BlockNode) : Prop :=
  overtakes chain.tip last = true ∧ Restorable rules chain node last ∧
    BranchConnects rules chain last

/-- When a reconsideration does what it is for.  A block that counts as valid is not
looked at; otherwise all depends on the last tip that is met above the block. -/
structure ReconsiderGuard (rules : ChainRules) (chain : Chain) (walk : List BlockNode)
    (node : BlockNode) : Prop where
  skipped : (nodeStatus rules chain node).valid = true →
    SettledOn rules chain node (Clean rules chain) chain.tip
  tried : (nodeStatus rules chain node).valid = false →
    ∀ last, reconsiderTip node (inactiveTips chain walk ++ [chain.tip]) = some last →
      (Takes rules chain node last →
        SettledOn rules chain node (Restorable rules chain node) last) ∧
      (¬ Takes rules chain node last →
        SettledOn rules chain node (Restorable rules chain node) chain.tip)

theorem reconsidered_iff_tried (tree : TreeInvariant rules chain)
    (notValid : (nodeStatus rules chain node).valid = false)
    (chosen : reconsiderTip node (inactiveTips chain walk ++ [chain.tip]) = some last)
    (cleared : Cleared rules chain node above middle) (nodes : SameNodes middle after)
    (same : SameFullyValid rules middle after) (justified : Justified rules after)
    (settles : Takes rules chain node last ∧ after.tip = last ∨
      ¬ Takes rules chain node last ∧ after.tip = chain.tip) :
    Reconsidered rules after node ↔ ReconsiderGuard rules chain walk node := by
  have allNodes := cleared.restated.nodes.trans nodes
  have settled_iff : ∀ active, (∀ tip, Leaf rules after tip → node ∈ tip.ancestors →
      FullyValid rules after tip → overtakes active tip = false) ↔
        SettledOn rules chain node (Restorable rules chain node) active := by
    intro active
    refine forall_congr' fun tip => ?_
    rw [leaf_iff_of_sameNodes allNodes]
    refine forall₂_congr fun leaf _ => ?_
    rw [same tip (leaf.1.of_sameNodes cleared.restated.nodes), FullyValid,
      cleared.clean_iff tree leaf.1, and_imp]
  have settled := settled_iff after.tip
  constructor
  · intro done
    have settled := settled.mp done.settled
    refine ⟨?_, fun _ other isLast => ?_⟩
    · rw [notValid]
      rintro ⟨⟩
    · obtain rfl := Option.some.inj (chosen.symm.trans isLast)
      rcases settles with ⟨takes, tip⟩ | ⟨stays, tip⟩
      · rw [tip] at settled
        exact ⟨fun _ => settled, fun never => absurd takes never⟩
      · rw [tip] at settled
        exact ⟨fun takes => absurd takes stays, fun _ => settled⟩
  · intro guard
    obtain ⟨whenTakes, whenStays⟩ := guard.tried notValid last chosen
    refine ⟨fun other known _ => justified other known, settled.mpr ?_⟩
    rcases settles with ⟨takes, tip⟩ | ⟨stays, tip⟩
    · rw [tip]
      exact whenTakes takes
    · rw [tip]
      exact whenStays stays

theorem reconsiderBlock_spec (invariant : NodeInvariant rules chain)
    (justified : Justified rules chain) (walks : Walks rules chain walk) (hash : Hash) :
    ∃ after result, reconsiderBlock rules chain walk hash = (after, result) ∧
      NodeInvariant rules after ∧ Justified rules after ∧ SameNodes chain after ∧
      (ReadsInputs rules → result = .ok () → ∃ node, lookupNode chain hash = some node ∧
        (Reconsidered rules after node ↔ ReconsiderGuard rules chain walk node)) := by
  have tree := invariant.tree
  cases found : lookupNode chain hash with
  | none =>
    simp only [reconsiderBlock, found]
    exact ⟨_, _, rfl, invariant, justified, .refl, by rintro _ ⟨⟩⟩
  | some node =>
    have known := tree.known found
    cases valid : (nodeStatus rules chain node).valid with
    | true =>
      simp only [reconsiderBlock, found, valid, if_true]
      refine ⟨_, _, rfl, invariant, justified, .refl, fun _ _ => ⟨node, rfl, ?_⟩⟩
      constructor
      · intro done
        refine ⟨fun _ tip leaf below clean sound =>
          done.settled tip leaf below ⟨clean, sound⟩, ?_⟩
        rw [valid]
        rintro ⟨⟩
      · intro guard
        refine ⟨fun other otherKnown _ => justified other otherKnown, ?_⟩
        intro tip leaf below fullyValid
        exact guard.skipped valid tip leaf below fullyValid.1 fullyValid.2
    | false =>
      have off : node ∉ chain.tip.ancestors := by
        intro member
        rw [(tree.best node member).1] at valid
        cases valid
      have cleared := cleared_clearInvalid tree walks known
      have clearedTip := cleared.restated.tip
      have holds := cleared.invariant invariant off
      have reasons := cleared.justified tree justified
      rcases @reconsiderTip_spec node (inactiveTips chain walk ++ [chain.tip]) with
        ⟨last, chosen, member, below⟩ | ⟨_, none⟩
      · have inactive : last ∈ inactiveTips chain walk := by
          refine (List.mem_append.mp member).resolve_right ?_
          intro isTip
          rw [List.mem_singleton.mp isTip] at below
          exact off below
        obtain ⟨lastKnown, lastOff, _⟩ := (mem_inactiveTips_iff walks).mp inactive
        have unfolded : reconsiderBlock rules chain walk hash =
            if !overtakes chain.tip last then
              (clearInvalid rules chain (inactiveTips chain walk ++ [chain.tip]) node, .ok ())
            else reconsiderBranch rules (clearInvalid rules chain
              (inactiveTips chain walk ++ [chain.tip]) node) last := by
          simp only [reconsiderBlock, found, valid, Bool.false_eq_true, if_false,
            chosen, clearedTip]
          rfl
        rw [unfolded]
        cases ahead : overtakes chain.tip last with
        | false =>
          refine ⟨_, _, rfl, holds, reasons, cleared.restated.nodes, fun _ _ => ⟨node, rfl, ?_⟩⟩
          refine reconsidered_iff_tried tree valid chosen cleared .refl
            (fun _ _ => Iff.rfl) reasons (.inr ⟨?_, clearedTip⟩)
          intro takes
          rw [takes.1] at ahead
          cases ahead
        | true =>
          obtain ⟨after, result, ended, holdsAfter, grows, settles⟩ := reconsiderBranch_spec holds
              (lastKnown.of_sameNodes cleared.restated.nodes) (by rw [clearedTip]; exact lastOff)
          refine ⟨after, result, ended, holdsAfter, grows.justified reasons,
            cleared.restated.nodes.trans grows.nodes, fun reads isOk => ⟨node, rfl, ?_⟩⟩
          obtain ⟨same, ends⟩ := settles isOk
          have ends := ends reads
          rw [cleared.clean_iff tree lastKnown, cleared.branchConnects_iff tree lastKnown,
            clearedTip] at ends
          refine reconsidered_iff_tried tree valid chosen cleared grows.nodes same
            (grows.justified reasons) ?_
          simpa only [Takes, ahead, true_and] using ends
      · obtain ⟨tip, isTip, below⟩ := exists_tip_above walks known
        exact absurd below (none tip isTip)

end ModelOS.BlockChain
