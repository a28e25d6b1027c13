import ModelOS.BlockChain.StatusMarks

namespace ModelOS.BlockChain

open Data Wire ZkPow

/-! `invalidateBlock` and `reconsiderBlock`. The caller gives the order in which the
index is walked. -/

section Model

variable (rules : ChainRules)

/-- Set `statusValidateFailed` and unset `statusValid`. -/
def statusInvalidated (status : BlockStatus) : BlockStatus :=
  { status with validateFailed := true, valid := false }

/-- Set `statusInvalidAncestor` and unset `statusValid`, unless the block is known
to be invalid already. -/
def statusOnInvalidated (status : BlockStatus) : BlockStatus :=
  if status.knownInvalid then status
  else { status with invalidAncestor := true, valid := false }

def unsetInvalidAncestor (status : BlockStatus) : BlockStatus :=
  { status with invalidAncestor := false }

def unsetValidateFailed (status : BlockStatus) : BlockStatus :=
  { status with validateFailed := false }

def isAncestor (node other : BlockNode) : Bool :=
  other ∈ node.ancestors ∧ other ≠ node

/-- The nodes off the best chain that no other such node points to. -/
def inactiveTips (chain : Chain) (walk : List BlockNode) : List BlockNode :=
  let orphans := walk.filter fun node => node ∉ chain.tip.ancestors
  orphans.filter fun node =>
    !orphans.any fun other => other.parent? = some node

/-- The first of the tips with the most work that are not known to be invalid. -/
def bestTip (chain : Chain) (tips : List BlockNode) : Option BlockNode :=
  tips.foldl (fun best tip =>
    if (nodeStatus rules chain tip).knownInvalid then best
    else
      match best with
      | none => some tip
      | some other => if other.workSum < tip.workSum then some tip else best) none

def reorganizeTo (chain : Chain) (node : BlockNode) : Chain × Except ChainError Unit :=
  match node with
  | .genesis _ => (chain, .error (.assert "the genesis block has no parent"))
  | .child parent _ =>
    let (chain, detach, attach) := getReorganizeNodes rules chain parent node
    reorganizeChain rules chain detach attach

/-- Take the block and those above it off the best chain, and move to the best tip
that is left. -/
def invalidateActive (chain : Chain) (walk : List BlockNode) (node : BlockNode) :
    Chain × Except ChainError Unit :=
  let above := nodesAbove (some node) chain.tip
  let detach := above.filter fun node => !(nodeStatus rules chain node).knownInvalid
  let chain := setAllFlags rules chain above statusOnInvalidated
  match reorganizeChain rules chain (detach ++ [node]) [] with
  | (chain, .error error) => (chain, .error error)
  | (chain, .ok ()) =>
    match bestTip rules chain (inactiveTips chain walk ++ [chain.tip]) with
    | none => (chain, .error (.assert "no tip is left"))
    | some best =>
      if best = chain.tip then (chain, .ok ()) else reorganizeTo rules chain best

def invalidateBlock (chain : Chain) (walk : List BlockNode) (hash : Hash) :
    Chain × Except ChainError Unit :=
  match lookupNode chain hash with
  | none => (chain, .error (.assert ("Requested block hash of " ++ hashString hash ++
      " is not found and thus cannot be invalidated.")))
  | some node =>
    if node.height = 0 then
      (chain, .error (.assert ("Requested block hash of " ++
        hashString (node.hash rules.sha256d) ++ " is a at height 0 " ++
        "and is thus a genesis block and cannot be invalidated.")))
    else if (nodeStatus rules chain node).knownInvalid then (chain, .ok ())
    else
      let chain := setStatusFlags rules chain node statusInvalidated
      if node ∉ chain.tip.ancestors then
        ((inactiveTips chain walk).foldl (fun chain tip =>
          if isAncestor tip node then
            setAllFlags rules chain (nodesAbove (some node) tip) statusOnInvalidated
          else chain) chain, .ok ())
      else invalidateActive rules chain walk node

def reconsiderTip (node : BlockNode) (tips : List BlockNode) : Option BlockNode :=
  tips.foldl (fun found tip =>
    if isAncestor tip node ∨ tip = node then some tip else found) none

/-- Clear the node's flags, and the mark of an invalid ancestor above it. -/
def clearInvalid (chain : Chain) (tips : List BlockNode) (node : BlockNode) : Chain :=
  tips.foldl (fun chain tip =>
    if isAncestor tip node then
      setAllFlags rules chain (nodesAbove (some node) tip) unsetInvalidAncestor
    else chain)
    (setStatusFlags rules
      (setStatusFlags rules chain node unsetInvalidAncestor) node unsetValidateFailed)

/-- A branch that turns out to be invalid is no error. -/
def reconsiderBranch (chain : Chain) (tip : BlockNode) : Chain × Except ChainError Unit :=
  match tip with
  | .genesis _ => (chain, .error (.assert "the genesis block has no parent"))
  | .child parent _ =>
    let (chain, detach, attach) := getReorganizeNodes rules chain parent tip
    match verifyReorganizationValidity rules chain detach attach with
    | (chain, .error _) => (chain, .ok ())
    | (chain, .ok _) => reorganizeChain rules chain detach attach

def reconsiderBlock (chain : Chain) (walk : List BlockNode) (hash : Hash) :
    Chain × Except ChainError Unit :=
  match lookupNode chain hash with
  | none => (chain, .error (.assert ("requested block hash of " ++ hashString hash ++
      " is not found and thus cannot be reconsidered")))
  | some node =>
    if (nodeStatus rules chain node).valid then (chain, .ok ())
    else
      let tips := inactiveTips chain walk ++ [chain.tip]
      let chain := clearInvalid rules chain tips node
      match reconsiderTip node tips with
      | none => (chain, .error (.assert "no tip descends from the block"))
      | some tip =>
        if !shouldChangeTip chain.tip.workSum tip.workSum
            (calcWork chain.tip.header.bits) (calcWork tip.header.bits) then
          (chain, .ok ())
        else reconsiderBranch rules chain tip

end Model

variable {rules : ChainRules} {chain middle after : Chain}
  {node fork other : BlockNode} {change : BlockNode → BlockStatus → BlockStatus}

theorem knownInvalid_statusInvalidated (status : BlockStatus) :
    (statusInvalidated status).knownInvalid = true := by
  simp [statusInvalidated, BlockStatus.knownInvalid]

theorem knownInvalid_statusOnInvalidated (status : BlockStatus) :
    (statusOnInvalidated status).knownInvalid = true := by
  unfold statusOnInvalidated
  split
  · next invalid => exact invalid
  · simp [BlockStatus.knownInvalid]

theorem statusOnInvalidated_idempotent (status : BlockStatus) :
    statusOnInvalidated (statusOnInvalidated status) = statusOnInvalidated status :=
  if_pos (knownInvalid_statusOnInvalidated status)

theorem valid_of_statusOnInvalidated
    (valid : (statusOnInvalidated status).valid = true) : status.valid = true := by
  unfold statusOnInvalidated at valid
  split at valid
  · exact valid
  · cases valid

/-- What lies above a node on the branches of the tips that descend from it. -/
def branchesAbove (node : BlockNode) (tips : List BlockNode) : List BlockNode :=
  tips.flatMap fun tip =>
    if isAncestor tip node then nodesAbove (some node) tip else []

theorem setAllFlags_append :
    setAllFlags rules chain (front ++ back) flags =
      setAllFlags rules (setAllFlags rules chain front flags) back flags :=
  List.foldl_append

theorem foldl_branches :
    tips.foldl (fun chain tip =>
      if isAncestor tip node then
        setAllFlags rules chain (nodesAbove (some node) tip) flags
      else chain) chain =
      setAllFlags rules chain (branchesAbove node tips) flags := by
  induction tips generalizing chain with
  | nil => rfl
  | cons tip rest ih =>
    have split : branchesAbove node (tip :: rest) =
        (if isAncestor tip node then nodesAbove (some node) tip else []) ++
          branchesAbove node rest := List.flatMap_cons
    rw [List.foldl_cons, ih, split, setAllFlags_append]
    split
    · rfl
    · rfl

theorem isAncestor_iff : isAncestor node other = true ↔ other ∈ node.ancestors ∧ other ≠ node := by
  simp [isAncestor]

theorem mem_branchesAbove_iff : other ∈ branchesAbove node tips ↔
      isAncestor other node = true ∧ ∃ tip ∈ tips, other ∈ tip.ancestors := by
  rw [branchesAbove, List.mem_flatMap, isAncestor_iff]
  constructor
  · rintro ⟨tip, member, onBranch⟩
    split at onBranch
    · next descends =>
      obtain ⟨mem, above, distinct⟩ :=
        (mem_nodesAbove_iff (isAncestor_iff.mp descends).1).mp onBranch
      exact ⟨⟨above, distinct.symm⟩, tip, member, mem⟩
    · cases onBranch
  · rintro ⟨⟨above, distinct⟩, tip, member, below⟩
    refine ⟨tip, member, ?_⟩
    have onTip := BlockNode.mem_ancestors_trans below above
    have descends : isAncestor tip node = true := by
      refine isAncestor_iff.mpr ⟨onTip, ?_⟩
      rintro rfl
      exact distinct (BlockNode.eq_of_mem_ancestors above below)
    rw [if_pos descends]
    exact (mem_nodesAbove_iff onTip).mpr ⟨below, above, distinct.symm⟩

def Walks (rules : ChainRules) (chain : Chain) (walk : List BlockNode) : Prop :=
  ∀ node, node ∈ walk ↔ Known rules chain node

theorem mem_inactiveTips_iff (walks : Walks rules chain walk) :
    node ∈ inactiveTips chain walk ↔ Known rules chain node ∧ node ∉ chain.tip.ancestors ∧
        ∀ block, ¬ Known rules chain (.child node block) := by
  simp only [inactiveTips, List.mem_filter, walks node, decide_eq_true_eq,
    Bool.not_eq_true', List.any_eq_false, and_assoc]
  refine and_congr_right fun known => and_congr_right fun off => ?_
  constructor
  · intro childless block child
    refine childless (.child node block) ⟨(walks _).mpr child, ?_⟩ rfl
    intro onChain
    exact off (BlockNode.mem_ancestors_trans onChain (.tail _ BlockNode.self_mem_ancestors))
  · rintro childless other ⟨member, _⟩ isParent
    cases other with
    | genesis block => cases isParent
    | child parent block =>
      cases isParent
      exact childless block ((walks _).mp member)

theorem inactiveTips_of_lower {lower : Chain} {walk : List BlockNode}
    (below : lower.tip ∈ chain.tip.ancestors) :
    (inactiveTips lower walk).filter (fun node => node ∉ chain.tip.ancestors) =
      inactiveTips chain walk := by
  simp only [inactiveTips, List.filter_filter]
  apply List.filter_congr
  intro node _
  by_cases off : node ∈ chain.tip.ancestors
  · simp [off]
  · have lowerOff : node ∉ lower.tip.ancestors := fun member =>
      off (BlockNode.mem_ancestors_trans below member)
    have children : ∀ other : BlockNode, other.parent? = some node →
        other ∉ chain.tip.ancestors := by
      intro other isParent onChain
      cases other with
      | genesis block => cases isParent
      | child parent block =>
        cases isParent
        exact off (BlockNode.mem_ancestors_trans onChain (.tail _ BlockNode.self_mem_ancestors))
    simp only [off, lowerOff, not_false_eq_true, decide_true, Bool.true_and, Bool.and_true]
    congr 1
    rw [Bool.eq_iff_iff]
    simp only [List.any_eq_true, List.mem_filter, decide_eq_true_eq]
    constructor
    · rintro ⟨other, ⟨member, _⟩, isParent⟩
      exact ⟨other, ⟨member, children other isParent⟩, isParent⟩
    · rintro ⟨other, ⟨member, otherOff⟩, isParent⟩
      exact ⟨other, ⟨member, fun onLower =>
        otherOff (BlockNode.mem_ancestors_trans below onLower)⟩, isParent⟩

/-- A known node off the best chain lies below an inactive tip: the longest of the
branches through it ends in one. -/
theorem exists_inactiveTip_above
    (walks : Walks rules chain walk) (known : Known rules chain node)
    (off : node ∉ chain.tip.ancestors) : ∃ tip ∈ inactiveTips chain walk, node ∈ tip.ancestors := by
  obtain ⟨tip, member, longest⟩ := Finset.exists_max_image
    (walk.toFinset.filter fun tip => node ∈ tip.ancestors) (fun tip => tip.ancestors.length)
    ⟨node, by simp [(walks node).mpr known, BlockNode.self_mem_ancestors]⟩
  simp only [Finset.mem_filter, List.mem_toFinset] at member longest
  obtain ⟨tipWalked, below⟩ := member
  refine ⟨tip, (mem_inactiveTips_iff walks).mpr ⟨(walks tip).mp tipWalked, ?_, ?_⟩, below⟩
  · intro onChain
    exact off (BlockNode.mem_ancestors_trans onChain below)
  · intro block child
    have longer := longest (.child tip block) ⟨(walks _).mpr child, .tail _ below⟩
    simp only [BlockNode.ancestors, List.length_cons] at longer
    omega

theorem exists_tip_above (walks : Walks rules chain walk)
    (known : Known rules chain node) :
    ∃ tip ∈ inactiveTips chain walk ++ [chain.tip], node ∈ tip.ancestors := by
  by_cases onChain : node ∈ chain.tip.ancestors
  · exact ⟨chain.tip, List.mem_append_right _ (List.mem_singleton_self _), onChain⟩
  · obtain ⟨tip, member, below⟩ := exists_inactiveTip_above walks known onChain
    exact ⟨tip, List.mem_append_left _ member, below⟩

end ModelOS.BlockChain
