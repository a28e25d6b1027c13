import ModelOS.BlockChain.BestChain
import ModelOS.BlockChain.TreeJoin

namespace ModelOS.BlockChain

open Data Wire

/-! The report is made when the block is connected; the pooled blocks that wait for it
are served after that. -/

section Report

variable {rules : ChainRules} {flags : BehaviorFlags} {chain : Chain}
  {orphans : List OrphanBlock} {block : MsgBlock} {adjustedTime : Nat} {keep : OrphanBlock → Bool}

structure TreeState (rules : ChainRules) (state : ChainState) : Prop where
  tree : TreeInvariant rules state.chain
  pool : PoolInvariant rules state.chain state.orphans

variable {orphan : OrphanBlock} {after : Chain} {state : ChainState} {node : BlockNode}
  {rest : List BlockNode}

/-- No block is forgotten, and no mark loses its reason. -/
structure Onward (rules : ChainRules) (before after : Chain) : Prop where
  nodes : ∀ hash node, lookupNode before hash = some node → lookupNode after hash = some node
  marks : Justified rules before → Justified rules after

theorem Onward.accept (onward : Onward rules before chain)
    (isNew : chain.index own = none) (nodes : SameNodesBut own chain after)
    (marks : Justified rules chain → Justified rules after) : Onward rules before after := by
  refine ⟨?_, fun start => marks (onward.marks start)⟩
  intro other node found
  have known := onward.nodes other node found
  refine (nodes other ?_).trans known
  rintro rfl
  rw [lookupNode, isNew] at known
  cases known

theorem serve_tree (tree : TreeInvariant rules chain) (pool : PoolInvariant rules chain orphans)
    (member : orphan ∈ orphans)
    (ended : maybeAcceptBlock rules chain orphan.block flags orphan.fastAdded = (after, result)) :
    TreeInvariant rules after ∧ PoolInvariant rules after (removeOrphanBlock rules orphans orphan) ∧
      SameNodesBut (blockHashOf rules orphan.block) chain after ∧
      (Justified rules chain → Justified rules after) ∧ ∀ isMainChain, result = .ok isMainChain →
        ∃ parent, lookupNode chain orphan.block.msgHeader.blockHeader.prevBlock = some parent ∧
          Known rules after (.child parent orphan.block) ∧
          CleanKept rules chain parent orphan.block after ∧
          Joined rules chain parent orphan.block after isMainChain := by
  obtain ⟨_, _, accepted, holds, nodes, marks, joins⟩ := @maybeAcceptBlock_tree rules chain
    orphan.block tree flags orphan.fastAdded (pool.absent orphan member)
  rw [ended] at accepted
  cases accepted
  exact ⟨holds, pool.served nodes, nodes, marks, fun isMainChain ended =>
    (joins isMainChain ended).2⟩

theorem processOrphans_tree {queue : List Hash} (holds : TreeState rules ⟨chain, orphans⟩) :
    TreeState rules (processOrphans rules flags chain orphans queue).1 ∧
      Onward rules chain (processOrphans rules flags chain orphans queue).1.chain := by
  refine @processOrphans_induction rules flags chain orphans (fun state =>
    TreeState rules state ∧ Onward rules chain state.chain) queue ?_ ⟨holds, fun _ _ => id, id⟩
  rintro chain orphans orphan after result member ended ⟨holds, onward⟩
  obtain ⟨tree, pool, nodes, marks, _⟩ := serve_tree holds.tree holds.pool member ended
  exact ⟨⟨tree, pool⟩, onward.accept (holds.pool.absent orphan member) nodes marks⟩

theorem TreeState.findPreviousCheckpoint (holds : TreeState rules state) : TreeState rules
      { state with chain := (findPreviousCheckpoint rules state.chain).1 } := by
  obtain ⟨checkpointNode, nextCheckpoint, moved⟩ := @findPreviousCheckpoint_chain rules state.chain
  rw [moved]
  exact ⟨holds.tree.congr rfl rfl, holds.pool.checkpoints checkpointNode nextCheckpoint⟩

theorem processBlock_tree (holds : TreeState rules state) :
    TreeState rules (processBlock rules state block flags adjustedTime keep).1 ∧
      Onward rules state.chain
        (processBlock rules state block flags adjustedTime keep).1.chain := by
  have moved := holds.findPreviousCheckpoint
  have looked : Onward rules state.chain (findPreviousCheckpoint rules state.chain).1 := by
    obtain ⟨_, _, same⟩ := @findPreviousCheckpoint_chain rules state.chain
    rw [same]
    exact ⟨fun _ _ => id, id⟩
  refine @processBlock_induction rules flags state block adjustedTime keep
    (fun after => TreeState rules after ∧ Onward rules state.chain after.chain)
    ⟨holds, fun _ _ => id, id⟩ ⟨moved, looked⟩ ?_ ?_ ?_
  · intro admissible
    exact ⟨⟨moved.tree, moved.pool.addOrphanBlock keep
      admissible.index_findPreviousCheckpoint (isPooled_eq_false_iff.mp admissible.notPooled)
      (sane_of_checkBlockSanity admissible.sane)⟩, looked⟩
  · intro after result admissible ended
    have isNew := admissible.index_findPreviousCheckpoint
    obtain ⟨_, _, accepted, tree, nodes, marks, _⟩ := @maybeAcceptBlock_tree rules _
      block moved.tree flags flags.fastAdd isNew
    rw [ended] at accepted
    cases accepted
    exact ⟨⟨tree, moved.pool.of_sameNodesBut nodes
      (isPooled_eq_false_iff.mp admissible.notPooled)⟩, looked.accept isNew nodes marks⟩
  · rintro after ⟨holds, onward⟩
    obtain ⟨tree, served⟩ := processOrphans_tree holds
    exact ⟨tree, fun hash node found => served.nodes hash node (onward.nodes hash node found),
      fun start => served.marks (onward.marks start)⟩

theorem treeState_initial (rules : ChainRules) (genesis : MsgBlock) :
    TreeState rules (.initial rules genesis) := by
  have invariant := stateInvariant_initial rules genesis
  refine ⟨⟨?_, ?_, ?_, invariant.chain.tip, ?_⟩, invariant.pool⟩
  · intro hash node found
    obtain ⟨entry, present, rfl⟩ := exists_entry_of_lookupNode found
    exact invariant.chain.hash hash entry present
  · intro hash node found
    obtain ⟨entry, present, rfl⟩ := exists_entry_of_lookupNode found
    exact invariant.chain.root hash entry present
  · intro parent block known
    obtain ⟨entry, found, isNode⟩ := exists_entry_of_lookupNode known
    have child := invariant.chain.children _ entry parent block found isNode
    exact ⟨child.linked, child.parentIndexed⟩
  · intro node member
    rw [List.mem_singleton.mp member]
    simp [nodeStatus, ChainState.initial, Chain.initial, BlockStatus.knownInvalid]

/-- The states that calls with any blocks, flags, clocks and evictions lead to, with
any verdicts on the blocks off the best chain in between. -/
inductive Reachable (rules : ChainRules) (genesis : MsgBlock) : ChainState → Prop
  | initial : Reachable rules genesis (.initial rules genesis)
  | step {state : ChainState} (before : Reachable rules genesis state)
      (action : Action) : Reachable rules genesis (step rules state action)
  | reassigned {state : ChainState} {after : Chain} (before : Reachable rules genesis state)
      (change : OffChain rules state.chain after) :
      Reachable rules genesis { state with chain := after }

theorem Reachable.treeState (reachable : Reachable rules genesis state) :
    TreeState rules state := by
  induction reachable with
  | initial => exact treeState_initial rules genesis
  | step before action ih =>
    cases action with
    | processBlock block flags adjustedTime keep => exact (processBlock_tree ih).1
    | flushUtxoCache =>
      exact ⟨ih.tree.congr rfl rfl, ih.pool.distinct, ih.pool.absent, ih.pool.sane⟩
  | reassigned before change ih =>
    refine ⟨ih.tree.of_offChain change, ?_⟩
    refine ⟨ih.pool.distinct, ?_, ih.pool.sane⟩
    intro orphan member
    rw [index_eq_none_iff, change.nodes, ← index_eq_none_iff]
    exact ih.pool.absent orphan member

/-- The nodes that the pooled blocks make on top of the queued nodes, in the order
in which they are served. -/
def descendantNodes (rules : ChainRules) (orphans : List OrphanBlock)
    (queue : List BlockNode) : List BlockNode :=
  match queue with
  | [] => []
  | node :: rest =>
    match _found : orphans.find? (dependsOn (node.hash rules.sha256d)) with
    | none => descendantNodes rules orphans rest
    | some orphan =>
      .child node orphan.block :: descendantNodes rules (removeOrphanBlock rules orphans orphan)
          (node :: rest ++ [.child node orphan.block])
termination_by (orphans.length, queue.length)
decreasing_by
  · exact Prod.Lex.right _ (Nat.lt_succ_self _)
  · exact Prod.Lex.left _ _ (length_removeOrphanBlock rules (List.mem_of_find?_eq_some _found))

/-- The queued nodes are known and lie on top of the base. -/
structure Queued (rules : ChainRules) (chain : Chain) (base : BlockNode)
    (queue : List BlockNode) : Prop where
  known : ∀ node ∈ queue, Known rules chain node
  above : ∀ node ∈ queue, base ∈ node.ancestors

theorem queue_hashes : node.hash rules.sha256d :: rest.map (BlockNode.hash rules.sha256d) ++
        [blockHashOf rules orphan.block] = (node :: rest ++ [BlockNode.child node orphan.block]).map
        (BlockNode.hash rules.sha256d) := by
  rw [List.map_append, List.map_cons]
  rfl

variable {base : BlockNode}

theorem Queued.tail (queued : Queued rules chain base (node :: rest)) :
    Queued rules chain base rest :=
  ⟨fun node member => queued.known node (.tail _ member),
    fun node member => queued.above node (.tail _ member)⟩

theorem serve_queued (tree : TreeInvariant rules chain) (pool : PoolInvariant rules chain orphans)
    (queued : Queued rules chain base (node :: rest))
    (found : orphans.find? (dependsOn (node.hash rules.sha256d)) = some orphan)
    (ended : maybeAcceptBlock rules chain orphan.block flags orphan.fastAdded =
      (after, .ok isMainChain)) :
    TreeInvariant rules after ∧ PoolInvariant rules after (removeOrphanBlock rules orphans orphan) ∧
      Queued rules after base (node :: rest ++ [.child node orphan.block]) ∧
      CleanKept rules chain node orphan.block after ∧
      Joined rules chain node orphan.block after isMainChain := by
  have member := List.mem_of_find?_eq_some found
  have absent := pool.absent orphan member
  obtain ⟨holds, apart, nodes, _, joins⟩ := serve_tree tree pool member ended
  obtain ⟨parent, looked, known, kept, joined⟩ := joins isMainChain rfl
  have waits : orphan.block.msgHeader.blockHeader.prevBlock = node.hash rules.sha256d := by
    simpa [dependsOn] using List.find?_some found
  have isNode : parent = node := by
    rw [waits, queued.known node (.head _)] at looked
    exact (Option.some.inj looked).symm
  rw [isNode] at known kept joined
  refine ⟨holds, apart, ⟨?_, ?_⟩, kept, joined⟩
  · intro other mem
    rcases List.mem_append.mp mem with earlier | last
    · have otherKnown := queued.known other earlier
      exact (nodes _ (otherKnown.hash_ne absent)).trans otherKnown
    · rw [List.mem_singleton.mp last]
      exact known
  · intro other mem
    rcases List.mem_append.mp mem with earlier | last
    · exact queued.above other earlier
    · rw [List.mem_singleton.mp last]
      exact .tail _ (queued.above node (.head _))

/-- While its descendants are served a block stays on the best chain, or gets onto it
exactly when its branch is clean and one of them overtakes the tip. -/
theorem processOrphans_reorganizes (tree : TreeInvariant rules chain)
    (pool : PoolInvariant rules chain orphans) {queue : List BlockNode}
    (queued : Queued rules chain base queue)
    (clean : ∀ node ∈ queue, (Clean rules chain node ↔ Clean rules chain base))
    (baseKnown : Known rules chain base) (ended : (processOrphans rules flags chain orphans
      (queue.map (BlockNode.hash rules.sha256d))).2 = .ok ()) :
    base ∈ (processOrphans rules flags chain orphans
        (queue.map (BlockNode.hash rules.sha256d))).1.chain.tip.ancestors ↔
      base ∈ chain.tip.ancestors ∨ Clean rules chain base ∧
        ∃ node ∈ descendantNodes rules orphans queue, overtakes chain.tip node = true := by
  fun_induction descendantNodes rules orphans queue generalizing chain with
  | case1 orphans =>
    rw [List.map_nil, processOrphans_empty]
    simp
  | case2 orphans node rest absent ih =>
    rw [List.map_cons, processOrphans_of_none absent] at ended ⊢
    exact ih tree pool queued.tail (fun node member => clean node (.tail _ member)) baseKnown ended
  | case3 orphans node rest orphan found ih =>
    rw [List.map_cons] at ended ⊢
    cases served : maybeAcceptBlock rules chain orphan.block flags orphan.fastAdded with
    | mk after result =>
      cases result with
      | error error =>
        rw [processOrphans_of_refused found served] at ended
        cases ended
      | ok isMainChain =>
        obtain ⟨holds, apart, behind, kept, joined⟩ := serve_queued tree pool queued found served
        rw [processOrphans_of_accepted found served, queue_hashes] at ended ⊢
        have above := queued.above node (.head _)
        have nodeClean := clean node (.head _)
        have baseAfter : Known rules after base :=
          holds.ancestors_known (behind.known node (.head _)) above
        have cleanAfter : ∀ other ∈ node :: rest ++ [.child node orphan.block],
            (Clean rules after other ↔ Clean rules after base) := by
          have baseSame := kept.clean base baseKnown
          intro other member
          rcases List.mem_append.mp member with earlier | last
          · exact (kept.clean other (queued.known other earlier)).trans
              ((clean other earlier).trans baseSame.symm)
          · rw [List.mem_singleton.mp last]
            exact kept.own.trans (nodeClean.trans baseSame.symm)
        have onTop : base ∈ (BlockNode.child node orphan.block).ancestors := .tail _ above
        rw [ih holds apart behind cleanAfter baseAfter ended, kept.clean base baseKnown]
        cases joined with
        | extended atTip tip =>
          rw [tip]
          exact iff_of_true (.inl onTop) (.inl (atTip ▸ above))
        | stayed _ isBehind tip =>
          rw [tip]
          simp [isBehind]
        | blocked _ _ unclean tip =>
          have dirty := mt nodeClean.mpr unclean
          rw [tip]
          simp [dirty]
        | reorganized _ ahead isClean tip =>
          rw [tip]
          exact iff_of_true (.inl onTop) (.inr ⟨nodeClean.mp isClean, _, .head _, ahead⟩)

/-- The report says whether the block is on the best chain; if it says so, the
block's ancestors are valid and the tip has moved. -/
structure Truthful (rules : ChainRules) (before : BlockNode) (after : Chain)
    (node : BlockNode) (isMainChain : Bool) : Prop where
  reported : isMainChain = true ↔ node ∈ after.tip.ancestors
  valid : isMainChain = true → ∀ ancestor ∈ node.ancestors,
    (nodeStatus rules after ancestor).valid = true
  moved : isMainChain = true → after.tip ≠ before

theorem truthful_of_onChain (tree : TreeInvariant rules after)
    (isNew : node ∉ before.ancestors) (onChain : node ∈ after.tip.ancestors) :
    Truthful rules before after node true := by
  refine ⟨iff_of_true rfl onChain, ?_, ?_⟩
  · intro _ ancestor member
    exact (tree.best ancestor (BlockNode.mem_ancestors_trans onChain member)).1
  · intro _ same
    rw [same] at onChain
    exact isNew onChain

theorem truthful_false_iff :
    Truthful rules before after node false ↔ node ∉ after.tip.ancestors := by
  constructor
  · intro truthful onChain
    exact Bool.false_ne_true (truthful.reported.mpr onChain)
  · intro offChain
    exact ⟨iff_of_false Bool.false_ne_true offChain, by rintro ⟨⟩, by rintro ⟨⟩⟩

theorem truthful_serveOrphans (tree : TreeInvariant rules chain)
    (isNew : chain.index (blockHashOf rules block) = none)
    (joinedTree : TreeInvariant rules joined)
    (pool : PoolInvariant rules joined orphans) (known : Known rules joined (.child parent block))
    (kept : CleanKept rules chain parent block joined)
    (joins : Joined rules chain parent block joined isMainChain)
    (ended : (processOrphans rules flags joined orphans [blockHashOf rules block]).2 = .ok ()) :
    Truthful rules chain.tip (processOrphans rules flags joined orphans
        [blockHashOf rules block]).1.chain (.child parent block) isMainChain ↔ parent = chain.tip ∨
      overtakes chain.tip (.child parent block) = true ∧ Clean rules chain parent ∨
      overtakes chain.tip (.child parent block) = false ∧
        ¬ (Clean rules chain parent ∧ ∃ node ∈ descendantNodes rules orphans [.child parent block],
            overtakes chain.tip node = true) := by
  have offBefore : BlockNode.child parent block ∉ chain.tip.ancestors := by
    intro member
    exact (tree.ancestors_known tree.tip member).hash_ne isNew rfl
  have queued : Queued rules joined (.child parent block) [.child parent block] := by
    constructor
    · intro node member
      rw [List.mem_singleton.mp member]
      exact known
    · intro node member
      rw [List.mem_singleton.mp member]
      exact BlockNode.self_mem_ancestors
  obtain ⟨served, _⟩ := @processOrphans_tree rules flags joined orphans
    [blockHashOf rules block] ⟨joinedTree, pool⟩
  have final := @processOrphans_reorganizes rules flags joined orphans (.child parent block)
    joinedTree pool [.child parent block] queued
    (fun node member => by rw [List.mem_singleton.mp member]) known ended
  have onTip (tip : joined.tip = .child parent block) :
      Truthful rules chain.tip (processOrphans rules flags joined orphans
        [blockHashOf rules block]).1.chain (.child parent block) true := by
    refine truthful_of_onChain served.tree offBefore (final.mpr (.inl ?_))
    rw [tip]
    exact BlockNode.self_mem_ancestors
  cases joins with
  | extended atTip tip => exact iff_of_true (onTip tip) (.inl atTip)
  | stayed apart behind tip =>
    rw [kept.own, tip, or_iff_right offBefore] at final
    rw [truthful_false_iff]
    simp only [apart, behind, Bool.false_eq_true, false_and, true_and, false_or]
    exact not_congr final
  | blocked apart ahead unclean tip =>
    rw [kept.own, tip, or_iff_right offBefore] at final
    refine iff_of_false ?_ ?_
    · intro truthful
      exact unclean (final.mp (truthful.reported.mp rfl)).1
    · simp [apart, ahead, unclean]
  | reorganized apart ahead clean tip =>
    exact iff_of_true (onTip tip) (.inr (.inl ⟨ahead, clean⟩))

/-- A call that accepts its block reports truthfully exactly when the block extends
the tip; or overtakes it on a branch without a block known to be invalid; or does
not overtake it, and neither does a pooled descendant, unless the branch has such a
block. -/
theorem report_truthful_iff (rules : ChainRules) (genesis : MsgBlock)
    (state : ChainState) (reachable : Reachable rules genesis state)
    (block : MsgBlock) (flags : BehaviorFlags) (adjustedTime : Nat)
    (keep : OrphanBlock → Bool) (after : ChainState) (isMainChain : Bool)
    (ended : processBlock rules state block flags adjustedTime keep =
      (after, .ok (isMainChain, false))) :
    ∃ parent, lookupNode state.chain block.msgHeader.blockHeader.prevBlock = some parent ∧
      (Truthful rules state.chain.tip after.chain (.child parent block) isMainChain ↔
        parent = state.chain.tip ∨ overtakes state.chain.tip (.child parent block) = true ∧
          Clean rules state.chain parent ∨ overtakes state.chain.tip (.child parent block) = false ∧
          ¬ (Clean rules state.chain parent ∧
            ∃ node ∈ descendantNodes rules state.orphans [.child parent block],
              overtakes state.chain.tip node = true)) := by
  have holds := reachable.treeState
  obtain ⟨admissible, parentKnown, joined, passed, served⟩ := accepted_of_processBlock_eq_ok ended
  have moved := holds.findPreviousCheckpoint
  have isNew := admissible.index_findPreviousCheckpoint
  have apart := isPooled_eq_false_iff.mp admissible.notPooled
  obtain ⟨_, _, accepted, tree, nodes, _, joins⟩ := @maybeAcceptBlock_tree rules _ block
    moved.tree flags flags.fastAdd isNew
  rw [passed] at accepted
  cases accepted
  obtain ⟨_, parent, looked, known, kept, joins⟩ := joins isMainChain rfl
  have pool := moved.pool.of_sameNodesBut nodes apart
  have report := truthful_serveOrphans moved.tree isNew tree pool known kept
    joins (congrArg Prod.snd served)
  rw [served] at report
  obtain ⟨_, _, same⟩ := @findPreviousCheckpoint_chain rules state.chain
  rw [same] at looked report
  exact ⟨parent, looked, report⟩

def deliver (rules : ChainRules) (chain : Chain) (block : MsgBlock) : Chain :=
  (maybeAcceptBlock rules chain block .none false).1

def deliverable (rules : ChainRules) (adjustedTime : Nat) : Chain → List MsgBlock → Bool
  | _, [] => true
  | chain, block :: rest =>
    !blockExists chain (blockHashOf rules block) &&
      (checkBlockSanity rules block adjustedTime .none = .ok () : Bool) &&
      blockExists chain block.msgHeader.blockHeader.prevBlock &&
      deliverable rules adjustedTime (deliver rules chain block) rest

theorem deliver_induction {motive : ChainState → Prop}
    (noCheckpoints : rules.checkpoints = [])
    (step : ∀ state, ∀ block ∈ blocks, motive state →
      motive (processBlock rules state block .none adjustedTime fun _ => true).1)
    (start : motive ⟨chain, []⟩) (delivers : deliverable rules adjustedTime chain blocks = true) :
    motive ⟨blocks.foldl (deliver rules) chain, []⟩ := by
  induction blocks generalizing chain with
  | nil => exact start
  | cons block rest ih =>
    simp only [deliverable, Bool.and_eq_true, Bool.not_eq_true', decide_eq_true_eq] at delivers
    obtain ⟨⟨⟨isNew, sane⟩, parentKnown⟩, delivers⟩ := delivers
    have moved := step _ block (.head _) start
    rw [processBlock_of_noCheckpoints noCheckpoints isNew sane parentKnown] at moved
    exact ih (fun state other member => step state other (.tail _ member)) moved delivers

theorem run_deliver (noCheckpoints : rules.checkpoints = [])
    (delivers : deliverable rules adjustedTime chain blocks = true) :
    run rules ⟨chain, []⟩ (blocks.map fun block =>
        .processBlock block .none adjustedTime fun _ => true) =
      ⟨blocks.foldl (deliver rules) chain, []⟩ := by
  induction blocks generalizing chain with
  | nil => rfl
  | cons block rest ih =>
    simp only [deliverable, Bool.and_eq_true, Bool.not_eq_true', decide_eq_true_eq] at delivers
    obtain ⟨⟨⟨isNew, sane⟩, parentKnown⟩, delivers⟩ := delivers
    rw [List.map_cons, run, List.foldl_cons, step,
      processBlock_of_noCheckpoints noCheckpoints isNew sane parentKnown]
    exact ih delivers

theorem Reachable.deliver
    (noCheckpoints : rules.checkpoints = []) (reachable : Reachable rules genesis ⟨chain, []⟩)
    (delivers : deliverable rules adjustedTime chain blocks = true) :
    Reachable rules genesis ⟨blocks.foldl (BlockChain.deliver rules) chain, []⟩ :=
  deliver_induction noCheckpoints (fun _ block _ reachable =>
    reachable.step (.processBlock block .none adjustedTime fun _ => true)) reachable delivers

end Report

/-! Blocks of the same work. The best chain is `firstBlock`, `secondBlock`;
`greedyBlock`, whose coinbase claims too much, has two children, each with a child;
`otherBlock` is a valid alternative to `firstBlock`, with a child. -/

namespace SimNetForks

open SimNetExample (genesisBlock genesisHash genesisHeader powLimitBits coinbase
  firstBlock firstHash firstTxHash secondBlock secondHash secondTxHash withHeader header)

def thirdTxHash : Hash :=
  .ofNat 32 0xe8869ff17692f0a915c72331bec98118fb47e42c4ec9122a07d029f0fec5d49e

def greedyTxHash : Hash :=
  .ofNat 32 0x2bd7dfefd6ab1c781536e0784606efeb588663447323f74046ab4a806294dc21

def greedyCoinbase : MsgTx :=
  { coinbase 1 with
    txOut := [⟨250000000001, 0x51 :: 0x20 :: List.replicate 32 0x11⟩] }

def greedyHash : Hash :=
  .ofNat 32 0x23da48a383e308227d1db4f7154065d46e050efd25263a9d7138e85bb5c51d6d

def leftHash : Hash :=
  .ofNat 32 0xb4038526dcc31e1184e89dd6e7afd8d0b51d12d8ff686ca5831f426b037c240f

def rightHash : Hash :=
  .ofNat 32 0x75eb0dcc7945d94d754663112eb40539da16974b9b1764ca65fa7be15a01fce3

def rightTopHash : Hash :=
  .ofNat 32 0xf61d702602ce8febc7a55ca5f25e8120316962ebaf2055f230f97234996f71e1

def leftTopHash : Hash :=
  .ofNat 32 0x0384f258fe8ede67a8b4ac4789233b13b859f093d00bd3c4356e9ffb70344039

def otherHash : Hash :=
  .ofNat 32 0x35ec1a86b96482315df0272978b2f5e0cba74e0057fe5418b1515b75c1c5d092

def otherTopHash : Hash :=
  .ofNat 32 0xdabf39c06e50e77bcc78a10a956b738573cc87a1e01ad41c59e1b944cd95ca3f

def greedyBlock : MsgBlock :=
  withHeader (header genesisHash greedyTxHash 1776675602 powLimitBits) [greedyCoinbase]

def leftBlock : MsgBlock :=
  withHeader (header greedyHash secondTxHash 1776675603 powLimitBits) [coinbase 2]

def rightBlock : MsgBlock :=
  withHeader (header greedyHash secondTxHash 1776675604 powLimitBits) [coinbase 2]

def rightTop : MsgBlock :=
  withHeader (header rightHash thirdTxHash 1776675605 powLimitBits) [coinbase 3]

def leftTop : MsgBlock :=
  withHeader (header leftHash thirdTxHash 1776675605 powLimitBits) [coinbase 3]

def otherBlock : MsgBlock :=
  withHeader (header genesisHash firstTxHash 1776675602 powLimitBits) [coinbase 1]

def otherTop : MsgBlock :=
  withHeader (header otherHash secondTxHash 1776675603 powLimitBits) [coinbase 2]

/-- The headers with the hashes that SHA-256 (twice) gives them. -/
def hashedHeaders : List (BlockHeader × Hash) :=
  [(genesisHeader, genesisHash)] ++
    [(firstBlock, firstHash), (secondBlock, secondHash), (greedyBlock, greedyHash),
      (leftBlock, leftHash), (rightBlock, rightHash), (rightTop, rightTopHash),
      (leftTop, leftTopHash), (otherBlock, otherHash),
      (otherTop, otherTopHash)].map fun (block, hash) =>
        (block.msgHeader.blockHeader, hash)

def headerHash (message : Bytes) : Hash :=
  ((hashedHeaders.find? fun (header, _) => writeBlockHeader header = message).map
    Prod.snd).getD (.zero 32)

def txHash (tx : MsgTx) : Hash :=
  if tx = coinbase 1 then firstTxHash
  else if tx = coinbase 2 then secondTxHash
  else if tx = coinbase 3 then thirdTxHash
  else if tx = greedyCoinbase then greedyTxHash
  else .zero 32

def rules : ChainRules :=
  { SimNetExample.rules with
    txHash := txHash
    sha256d := headerHash
    calcMerkleRoot := fun transactions =>
      (transactions.head?.map txHash).getD (.zero 32) }

def start : Chain := .initial rules genesisBlock

/-- The child of `rightBlock` has made the reorganisation fail on `greedyBlock`; the
child of `leftBlock` is still to come. -/
def forked : Chain :=
  [firstBlock, secondBlock, greedyBlock, leftBlock, rightBlock, rightTop].foldl
    (deliver rules) start

theorem reachable_forked : Reachable rules genesisBlock ⟨forked, []⟩ :=
  Reachable.deliver rfl .initial (by decide : deliverable rules 1776675700 start
      [firstBlock, secondBlock, greedyBlock, leftBlock, rightBlock, rightTop] = true)

/-- The child of `otherBlock` has arrived before it. -/
def waiting : ChainState := ⟨deliver rules start firstBlock, [⟨otherTop, false⟩]⟩

theorem reachable_waiting : Reachable rules genesisBlock waiting := by
  have first : Reachable rules genesisBlock ⟨deliver rules start firstBlock, []⟩ :=
    Reachable.deliver rfl .initial (by decide : deliverable rules 1776675700
      start [firstBlock] = true)
  have pooled := first.step (.processBlock otherTop .none 1776675700 fun _ => true)
  have admissible : Admissible rules ⟨deliver rules start firstBlock, []⟩ otherTop
      .none 1776675700 := .of_noCheckpoints rfl (by decide) rfl (by decide)
  rw [step, processBlock_of_orphan admissible (by decide)] at pooled
  exact pooled

def otherNode : BlockNode := .child (.genesis genesisBlock) otherBlock

end SimNetForks

open SimNetExample in
open SimNetForks in
theorem report_truthful_simNet : Truthful SimNetForks.rules (.genesis genesisBlock)
      (deliver SimNetForks.rules SimNetForks.start firstBlock)
      (.child (.genesis genesisBlock) firstBlock) true := by
  have accepted : (maybeAcceptBlock SimNetForks.rules SimNetForks.start firstBlock .none false).2 =
      .ok true := by
    decide
  have ended : processBlock SimNetForks.rules ⟨SimNetForks.start, []⟩ firstBlock .none 1776675700
      (fun _ => true) =
      (⟨deliver SimNetForks.rules SimNetForks.start firstBlock, []⟩, .ok (true, false)) :=
    (processBlock_of_noCheckpoints rfl (by decide) (by decide)
      (by decide)).trans (Prod.ext rfl
        (congrArg (Except.map fun isMainChain => (isMainChain, false)) accepted))
  obtain ⟨parent, looked, report⟩ := report_truthful_iff SimNetForks.rules genesisBlock
    ⟨SimNetForks.start, []⟩ .initial firstBlock .none 1776675700 (fun _ => true) _ true ended
  have isGenesis : lookupNode SimNetForks.start firstBlock.msgHeader.blockHeader.prevBlock =
      some (.genesis genesisBlock) := by
    decide
  obtain rfl := Option.some.inj (looked.symm.trans isGenesis)
  exact report.mpr (.inl rfl)

open SimNetExample in
open SimNetForks in
/-- A block on a branch that failed before is reported to be on the main chain while
the tip stays; and a block that a pooled child brings onto the main chain is reported
not to be on it. -/
theorem report_untruthful_simNet : Reachable SimNetForks.rules genesisBlock ⟨forked, []⟩ ∧
    (processBlock SimNetForks.rules ⟨forked, []⟩ leftTop .none 1776675700
      fun _ => true).2 = .ok (true, false) ∧
    (processBlock SimNetForks.rules ⟨forked, []⟩ leftTop .none 1776675700
      fun _ => true).1.chain.tip = forked.tip ∧
    Reachable SimNetForks.rules genesisBlock waiting ∧
    (processBlock SimNetForks.rules waiting otherBlock .none 1776675700
      fun _ => true).2 = .ok (false, false) ∧
    (processBlock SimNetForks.rules waiting otherBlock .none 1776675700
      fun _ => true).1.chain.tip = .child otherNode otherTop := by
  have blocked := @processBlock_of_noCheckpoints SimNetForks.rules .none forked leftTop
    1776675700 (fun _ => true) rfl (by decide +kernel) (by decide +kernel) (by decide +kernel)
  have admissible : Admissible SimNetForks.rules waiting otherBlock .none 1776675700 :=
    .of_noCheckpoints rfl (by decide) (by decide) (by decide)
  have accepted : (maybeAcceptBlock SimNetForks.rules waiting.chain otherBlock .none
      false).2 = .ok false := by
    decide
  have served := @processBlock_of_accepted SimNetForks.rules .none waiting otherBlock
    1776675700 (fun _ => true) admissible (by decide) _ false (Prod.ext rfl accepted)
  have waits : dependsOn (blockHashOf SimNetForks.rules otherBlock) ⟨otherTop, false⟩ = true := by
    decide
  rw [blocked, served, serveOrphans, waiting, processOrphans_singleton waits]
  refine ⟨reachable_forked, ?_, ?_, reachable_waiting, ?_, ?_⟩
  · decide +kernel
  · decide +kernel
  · decide
  · decide

end ModelOS.BlockChain
