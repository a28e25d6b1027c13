import ModelOS.BlockChain.ChainInvariant

namespace ModelOS.BlockChain

open Data Wire ZkPow

/-! The scratch view follows the ledgers of the blocks it walks over, so every block it
attaches is validated against its own parent's ledger. -/

namespace BlockNode

variable {node fork : BlockNode}

theorem mem_ancestors_trans {ancestor : BlockNode} (below : fork ∈ node.ancestors)
    (member : ancestor ∈ fork.ancestors) : ancestor ∈ node.ancestors := by
  rw [ancestors_eq_nodesAbove below]
  exact List.mem_append_right _ member

theorem ancestors_injective (same : node.ancestors = fork.ancestors) : node = fork := by
  cases node with
  | genesis block => exact eq_of_ancestors_eq_cons same.symm
  | child parent block => exact eq_of_ancestors_eq_cons same.symm

theorem exists_parent_of_path
    (path : node.ancestors = first :: rest ++ fork.ancestors) :
    ∃ parent block, node = child parent block ∧ first = node ∧
      parent.ancestors = rest ++ fork.ancestors := by
  have isNode := eq_of_ancestors_eq_cons path
  cases node with
  | genesis block =>
    have empty := (List.cons.inj path).2.symm
    exact absurd (List.append_eq_nil_iff.mp empty).2 ancestors_ne_nil
  | child parent block =>
    exact ⟨parent, block, rfl, isNode, (List.cons.inj path).2⟩

end BlockNode

/-- A chain of children on top of a node, from the lowest to the last. -/
def Branch : BlockNode → List BlockNode → BlockNode → Prop
  | base, [], last => base = last
  | base, node :: rest, last =>
    (∃ block, node = .child base block) ∧ Branch node rest last

theorem Branch.snoc
    (branch : Branch base nodes parent) (block : MsgBlock) :
    Branch base (nodes ++ [.child parent block]) (.child parent block) := by
  induction nodes generalizing base with
  | nil =>
    cases branch
    exact ⟨⟨block, rfl⟩, rfl⟩
  | cons node rest ih => exact ⟨branch.1, ih branch.2⟩

theorem branch_of_path
    (above : node.ancestors = path ++ fork.ancestors) : Branch fork path.reverse node := by
  induction path generalizing node with
  | nil => exact (BlockNode.ancestors_injective above).symm
  | cons first rest ih =>
    obtain ⟨parent, block, rfl, rfl, below⟩ := BlockNode.exists_parent_of_path above
    rw [List.reverse_cons]
    exact (ih below).snoc block

variable {rules : ChainRules} {chain after : Chain} {fork : BlockNode}

def journalOf (rules : ChainRules) : BlockNode → List SpentTxOut
  | .genesis _ => []
  | .child parent block =>
    (utxosOf rules parent).coinsAll (transfersOf rules (.child parent block))

variable {detach attach : List BlockNode}

theorem detachNodes_spec (invariant : ChainInvariant rules chain) {current : BlockNode}
    {view : UtxoViewpoint} (onChain : current ∈ chain.tip.ancestors)
    (path : current.ancestors = detach ++ fork.ancestors)
    (utxos : view.entries.unspent = utxosOf rules current)
    (best : view.bestHash = current.hash rules.sha256d) :
    ∃ result, detachNodes rules chain view detach = .ok (result, detach.map (journalOf rules)) ∧
      result.entries.unspent = utxosOf rules fork ∧ result.bestHash = fork.hash rules.sha256d := by
  induction detach generalizing current view with
  | nil =>
    rw [BlockNode.ancestors_injective path] at utxos best
    exact ⟨view, rfl, utxos, best⟩
  | cons node rest ih =>
    obtain ⟨parent, block, rfl, rfl, below⟩ := BlockNode.exists_parent_of_path path
    obtain ⟨linked, sane, connectable, journal⟩ := invariant.best onChain
    obtain ⟨lower, undone, lowerUtxos, lowerBest⟩ := disconnect_view linked sane connectable utxos
    obtain ⟨result, remaining, ends⟩ := ih
      (BlockNode.mem_ancestors_trans onChain (.tail _ BlockNode.self_mem_ancestors))
      below lowerUtxos lowerBest
    refine ⟨result, ?_, ends⟩
    simp only [detachNodes, bind_eq_ok]
    exact ⟨_, journal, lower, undone, (result, _), remaining, rfl⟩

theorem disconnectNodes_spec (invariant : ChainInvariant rules chain)
    (path : chain.tip.ancestors = detach ++ fork.ancestors) : ∃ after, disconnectNodes rules chain
        (detach.zip (detach.map (journalOf rules))) = (after, .ok ()) ∧
      ChainInvariant rules after ∧ after.tip = fork ∧ after.index = chain.index := by
  induction detach generalizing chain with
  | nil => exact ⟨chain, rfl, invariant, BlockNode.ancestors_injective path, rfl⟩
  | cons node rest ih =>
    obtain ⟨parent, block, tip, rfl, below⟩ := BlockNode.exists_parent_of_path path
    have onChain : BlockNode.child parent block ∈ chain.tip.ancestors := by
      rw [tip]
      exact BlockNode.self_mem_ancestors
    obtain ⟨linked, sane, connectable, _⟩ := invariant.best onChain
    have utxos := invariant.utxos
    rw [tip] at utxos
    obtain ⟨view, undone, lowerUtxos, _⟩ := @disconnect_view rules parent block
      ⟨chain.utxoCache, chain.tip.hash rules.sha256d⟩ linked sane connectable utxos
    have moved : disconnectBlock rules chain chain.tip view =
        (retractTip rules chain parent view.entries, .ok ()) := by
      simp only [disconnectBlock, retractTip, tip, ne_eq, not_true_eq_false, if_false]
    obtain ⟨after, rest, holds⟩ := @ih (retractTip rules chain parent view.entries)
      (invariant.retractTip tip lowerUtxos) below
    refine ⟨after, ?_, holds⟩
    have undone : disconnectTransactions rules.toTxRules
        ⟨fetchInputUtxos rules.toTxRules chain.utxoCache chain.tip.block.transactions
          chain.tip.height, chain.tip.hash rules.sha256d⟩ chain.tip.block
        chain.tip.height (journalOf rules chain.tip) = .ok view := by
      rw [tip] at undone ⊢
      exact undone
    simp only [List.map_cons, List.zip_cons_cons, disconnectNodes, undone, moved]
    exact rest

/-- What checking the blocks to attach can do. -/
inductive Attaches (rules : ChainRules) :
    Chain → List BlockNode → Chain × Except ChainError Unit → Prop
  | ended {chain : Chain} : Attaches rules chain [] (chain, .ok ())
  | stopped {chain : Chain} {base : BlockNode} {block : MsgBlock} {rest : List BlockNode}
      {view : UtxoViewpoint} {error : ChainError}
      (notValid : (nodeStatus rules chain (.child base block)).valid ≠ true)
      (utxos : view.entries.unspent = utxosOf rules base)
      (best : view.bestHash = base.hash rules.sha256d)
      (checked : checkConnectBlock rules (.child base block) view = .error error) :
      Attaches rules chain (.child base block :: rest) (chain, .error error)
  | known {chain : Chain} {node : BlockNode} {rest : List BlockNode}
      {outcome : Chain × Except ChainError Unit}
      (valid : (nodeStatus rules chain node).valid = true)
      (attaches : Attaches rules chain rest outcome) : Attaches rules chain (node :: rest) outcome
  | passed {chain : Chain} {base : BlockNode} {block : MsgBlock} {rest : List BlockNode}
      {outcome : Chain × Except ChainError Unit} (passes : PassesConnect rules base block)
      (here : lookupNode chain ((BlockNode.child base block).hash rules.sha256d) =
        some (.child base block))
      (marked : ChainInvariant rules (setStatusFlags rules chain (.child base block) statusValid))
      (attaches : Attaches rules (setStatusFlags rules chain (.child base block) statusValid)
        rest outcome) : Attaches rules chain (.child base block :: rest) outcome
  | failed {chain : Chain} {base last : BlockNode} {block : MsgBlock} {rest : List BlockNode}
      {view : UtxoViewpoint} {error : RuleError}
      (notValid : (nodeStatus rules chain (.child base block)).valid ≠ true)
      (branch : Branch (.child base block) rest last)
      (indexed : ∀ node ∈ .child base block :: rest,
        lookupNode chain (node.hash rules.sha256d) = some node)
      (utxos : view.entries.unspent = utxosOf rules base)
      (best : view.bestHash = base.hash rules.sha256d)
      (checked : checkConnectBlock rules (.child base block) view = .error (.rule error)) :
      Attaches rules chain (.child base block :: rest)
        (rest.foldl (fun chain node => setStatusFlags rules chain node statusInvalidAncestor)
          (setStatusFlags rules chain (.child base block) statusValidateFailed),
          .error (.rule error))

theorem attaches_attachNodes (invariant : ChainInvariant rules chain) {base last : BlockNode}
    {view : UtxoViewpoint} (branch : Branch base attach last)
    (indexed : ∀ node ∈ attach, lookupNode chain (node.hash rules.sha256d) = some node)
    (utxos : view.entries.unspent = utxosOf rules base)
    (best : view.bestHash = base.hash rules.sha256d) :
    Attaches rules chain attach (attachNodes rules chain view attach) := by
  induction attach generalizing chain base view with
  | nil => exact .ended
  | cons node rest ih =>
    obtain ⟨⟨block, rfl⟩, branch⟩ := branch
    have here := indexed _ (.head _)
    have others : ∀ node ∈ rest, lookupNode chain (node.hash rules.sha256d) = some node :=
      fun node member => indexed node (.tail _ member)
    rw [attachNodes]
    split
    · next valid =>
      have connectable := invariant.connectable here valid
      rw [Connectable, ← utxos] at connectable
      obtain ⟨_, succeeds⟩ := (UtxoEntries.Within.fetchInputUtxos view.entries).connectTransactions
        (@connectTransactions_of_connects _ .view _ _ _ connectable)
      dsimp only
      split
      · next failed =>
        rw [show connectTransactions _ _ _ _ _ = _ from failed] at succeeds
        cases succeeds
      · next entries stxos connected =>
        have unspent := unspent_connectTransactions connected
        rw [agreeOff_fetchInputUtxos.applyAll_eq, utxos] at unspent
        exact .known valid (@ih chain invariant (.child base block)
          ⟨entries, (BlockNode.child base block).hash rules.sha256d⟩ branch others unspent rfl)
    · next notValid =>
      split
      · next viewAfter checked =>
        obtain ⟨unspent, bestAfter⟩ := unspent_of_checkConnectBlock checked
        rw [utxos] at unspent
        obtain ⟨entry, found, isNode⟩ := exists_entry_of_lookupNode here
        have passes : PassesConnect rules base block := ⟨view, viewAfter, best, utxos, checked⟩
        have connectable :=
          (invariant.children _ entry base block found isNode).connectable passes
        have marked := invariant.setValid found isNode connectable fun _ => passes
        exact .passed passes here marked (ih marked branch
          (fun node member => (lookupNode_setStatusFlags statusValid _).trans
            (others node member)) unspent bestAfter)
      · next checked => exact .failed notValid branch indexed utxos best checked
      · next checked => exact .stopped notValid utxos best checked

structure Attached (rules : ChainRules) (chain : Chain) (attach : List BlockNode)
    (outcome : Chain × Except ChainError Unit) : Prop where
  invariant : ChainInvariant rules outcome.1
  statuses : OnlyStatuses rules chain outcome.1
  valid : outcome.2 = .ok () → ∀ node ∈ attach, (nodeStatus rules outcome.1 node).valid = true

theorem Attaches.attached
    (attaches : Attaches rules chain attach outcome) (invariant : ChainInvariant rules chain) :
    Attached rules chain attach outcome := by
  induction attaches with
  | ended => exact ⟨invariant, .refl, by rintro _ _ ⟨⟩⟩
  | stopped => exact ⟨invariant, .refl, by rintro ⟨⟩⟩
  | known valid _ ih =>
    have attached := ih invariant
    refine ⟨attached.invariant, attached.statuses, ?_⟩
    intro ended
    exact List.forall_mem_cons.mpr ⟨attached.statuses.valid _ valid, attached.valid ended⟩
  | @passed chain base block _ _ _ here marked _ ih =>
    have attached := ih marked
    have statuses := @onlyStatuses_setStatusFlags rules chain (.child base block) statusValid
      fun _ _ => rfl
    refine ⟨attached.invariant, statuses.trans attached.statuses, ?_⟩
    intro ended
    refine List.forall_mem_cons.mpr ⟨attached.statuses.valid _ ?_, attached.valid ended⟩
    rw [nodeStatus_setStatusFlags_self here]
    rfl
  | @failed chain base _ block rest =>
    obtain ⟨failed, marked⟩ := @ChainInvariant.setInvalid _ _
      (.child base block) invariant statusValidateFailed fun _ => rfl
    obtain ⟨holds, others⟩ := failed.setAllInvalid rest
    exact ⟨holds, marked.trans others, by rintro ⟨⟩⟩

theorem connectNodes_spec (invariant : ChainInvariant rules chain)
    (branch : Branch chain.tip attach last)
    (indexed : ∀ node ∈ attach, lookupNode chain (node.hash rules.sha256d) = some node)
    (valid : ∀ node ∈ attach, (nodeStatus rules chain node).valid = true) :
    ∃ after, connectNodes rules chain attach = (after, .ok ()) ∧
      ChainInvariant rules after ∧ after.tip = last ∧ after.index = chain.index := by
  induction attach generalizing chain with
  | nil => exact ⟨chain, rfl, invariant, branch, rfl⟩
  | cons node rest ih =>
    obtain ⟨⟨block, rfl⟩, branch⟩ := branch
    have here := indexed _ (.head _)
    have isValid := valid _ (.head _)
    obtain ⟨linked, sane⟩ := invariant.sane here
    obtain ⟨entries, utxos, connected⟩ := connectTip_eq invariant.utxos linked sane
      (invariant.connectable here isValid)
    obtain ⟨after, others, holds⟩ := @ih (extendTip rules chain block entries)
      (invariant.extendTip utxos here isValid) branch
      (fun node member => indexed node (.tail _ member))
      (fun node member => valid node (.tail _ member))
    refine ⟨after, ?_, holds⟩
    rw [connectNodes, connected]
    exact others

/-- The blocks to detach lead from the tip down to a fork, and those to attach
lead up from it. -/
structure ReorganizePlan (rules : ChainRules) (chain : Chain)
    (detach attach : List BlockNode) : Prop where
  meets : ∃ fork last, chain.tip.ancestors = detach ++ BlockNode.ancestors fork ∧
    Branch fork attach last
  indexed : ∀ node ∈ attach, lookupNode chain (node.hash rules.sha256d) = some node

theorem ReorganizePlan.empty : ReorganizePlan rules chain [] [] :=
  ⟨⟨chain.tip, chain.tip, rfl, rfl⟩, by rintro _ ⟨⟩⟩

theorem ReorganizePlan.of_onlyStatuses (plan : ReorganizePlan rules chain detach attach)
    (statuses : OnlyStatuses rules chain after) : ReorganizePlan rules after detach attach := by
  refine ⟨?_, fun node member => (statuses.nodes _).trans (plan.indexed node member)⟩
  rw [statuses.tip]
  exact plan.meets

theorem exists_findFork
    (common : BlockNode.genesis node.root ∈ chain.tip.ancestors) :
    ∃ fork, findFork chain node = some fork ∧ fork ∈ chain.tip.ancestors ∧
      fork ∈ node.ancestors := by
  cases search : findFork chain node with
  | none =>
    have none := List.find?_eq_none.mp search _ BlockNode.genesis_mem_ancestors
    exact absurd common (by simpa using none)
  | some fork =>
    refine ⟨fork, rfl, ?_, List.mem_of_find?_eq_some search⟩
    simpa using List.find?_some search

theorem getReorganizeNodes_spec (invariant : ChainInvariant rules chain)
    (parent : BlockNode)
    (indexed : lookupNode chain (node.hash rules.sha256d) = some node) : ∃ after detach attach,
      getReorganizeNodes rules chain parent node = (after, detach, attach) ∧
      ChainInvariant rules after ∧ OnlyStatuses rules chain after ∧
      ReorganizePlan rules after detach attach := by
  rw [getReorganizeNodes]
  split
  · obtain ⟨holds, marked⟩ := @ChainInvariant.setInvalid _ _ node invariant
      statusInvalidAncestor fun _ => rfl
    exact ⟨_, [], [], rfl, holds, marked, .empty⟩
  · dsimp only
    split
    · obtain ⟨holds, marked⟩ := invariant.setAllInvalid
        ((nodesAbove (findFork chain node) node).takeWhile fun node =>
          !(nodeStatus rules chain node).knownInvalid).reverse
      exact ⟨_, [], [], rfl, holds, marked, .empty⟩
    · have root : BlockNode.genesis node.root ∈ chain.tip.ancestors := by
        obtain ⟨entry, found, rfl⟩ := exists_entry_of_lookupNode indexed
        rw [invariant.root _ entry found]
        exact BlockNode.genesis_mem_ancestors
      obtain ⟨fork, found, below, common⟩ := exists_findFork root
      refine ⟨chain, _, _, rfl, invariant, .refl, ?_, ?_⟩
      · rw [found]
        exact ⟨fork, node, BlockNode.ancestors_eq_nodesAbove below,
          branch_of_path (BlockNode.ancestors_eq_nodesAbove common)⟩
      · intro other member
        exact invariant.ancestors_indexed indexed
          ((List.takeWhile_subset _) (List.mem_reverse.mp member))

inductive Verified (rules : ChainRules) (chain : Chain) (detach attach : List BlockNode) :
    Chain × Except ChainError (List (List SpentTxOut)) → Prop
  | empty (nothing : detach = [] ∧ attach = []) : Verified rules chain detach attach (chain, .ok [])
  | stopped {error : ChainError} : Verified rules chain detach attach (chain, .error error)
  | walked {view : UtxoViewpoint} {journals : List (List SpentTxOut)} {after : Chain}
      {result : Except ChainError Unit}
      (detached : detachNodes rules chain ⟨chain.utxoCache, chain.tip.hash rules.sha256d⟩
        detach = .ok (view, journals))
      (attached : attachNodes rules chain view attach = (after, result)) :
      Verified rules chain detach attach (after, result.map fun _ => journals)

theorem verified_verifyReorganizationValidity : Verified rules chain detach attach
      (verifyReorganizationValidity rules chain detach attach) := by
  rw [verifyReorganizationValidity]
  split
  · next nothing => exact .empty nothing
  · split
    · exact .stopped
    · split
      · exact .stopped
      · split
        · exact .stopped
        · next detached =>
          split
          · next failed => exact .walked detached failed
          · next ended => exact .walked detached ended

theorem getLast?_of_path {node : BlockNode}
    (above : node.ancestors = path ++ fork.ancestors) (proper : path ≠ []) :
    ∃ block, path.getLast? = some (.child fork block) := by
  induction path generalizing node with
  | nil => exact absurd rfl proper
  | cons first rest ih =>
    obtain ⟨below, block, rfl, rfl, lower⟩ := BlockNode.exists_parent_of_path above
    cases rest with
    | nil =>
      obtain rfl := BlockNode.ancestors_injective lower
      exact ⟨block, rfl⟩
    | cons second others =>
      obtain ⟨lowest, last⟩ := ih lower (List.cons_ne_nil _ _)
      exact ⟨lowest, by rw [List.getLast?_cons_cons, last]⟩

theorem attaches_verifyReorganizationValidity (invariant : ChainInvariant rules chain)
    (plan : ReorganizePlan rules chain detach attach) :
    ∃ after result, Attaches rules chain attach (after, result) ∧
      verifyReorganizationValidity rules chain detach attach =
        (after, result.map fun _ => detach.map (journalOf rules)) := by
  obtain ⟨fork, last, path, branch⟩ := plan.meets
  have atTip : ¬ detach.head?.any (fun first =>
      first.hash rules.sha256d ≠ chain.tip.hash rules.sha256d) = true := by
    cases detach with
    | nil => simp
    | cons first rest =>
      obtain rfl := BlockNode.eq_of_ancestors_eq_cons path
      simp
  have sameFork : ¬ (attach ≠ [] ∧ detach ≠ [] ∧ attach.head?.bind (parentHash rules) ≠
        detach.getLast?.bind (parentHash rules)) := by
    rintro ⟨attaches, detaches, differ⟩
    obtain ⟨lowest, isLast⟩ := getLast?_of_path path detaches
    cases attach with
    | nil => exact attaches rfl
    | cons first rest =>
      obtain ⟨⟨block, rfl⟩, _⟩ := branch
      rw [isLast] at differ
      exact differ rfl
  obtain ⟨view, detached, utxos, best⟩ := @detachNodes_spec rules chain fork detach invariant
    chain.tip ⟨chain.utxoCache, chain.tip.hash rules.sha256d⟩
    BlockNode.self_mem_ancestors path invariant.utxos rfl
  have attaches := attaches_attachNodes invariant branch plan.indexed utxos best
  rw [verifyReorganizationValidity, if_neg atTip, if_neg sameFork, detached]
  split
  · next nothing =>
    obtain ⟨rfl, rfl⟩ := nothing
    exact ⟨chain, _, .ended, rfl⟩
  · dsimp only
    generalize attachNodes rules chain view attach = outcome at attaches ⊢
    obtain ⟨after, result⟩ := outcome
    cases result with
    | error error => exact ⟨after, _, attaches, rfl⟩
    | ok => exact ⟨after, _, attaches, rfl⟩

theorem verifyReorganizationValidity_spec (invariant : ChainInvariant rules chain)
    (plan : ReorganizePlan rules chain detach attach) :
    ∃ after result, verifyReorganizationValidity rules chain detach attach = (after, result) ∧
      ChainInvariant rules after ∧ OnlyStatuses rules chain after ∧
      ∀ journals, result = .ok journals → journals = detach.map (journalOf rules) ∧
        ∀ node ∈ attach, (nodeStatus rules after node).valid = true := by
  obtain ⟨after, result, attaches, verified⟩ := attaches_verifyReorganizationValidity invariant plan
  have attached := attaches.attached invariant
  refine ⟨after, _, verified, attached.invariant, attached.statuses, ?_⟩
  intro journals ended
  cases result with
  | error error => cases ended
  | ok =>
    cases ended
    exact ⟨rfl, attached.valid rfl⟩

theorem reorganizeChain_spec (invariant : ChainInvariant rules chain)
    (plan : ReorganizePlan rules chain detach attach) :
    ∃ after result, reorganizeChain rules chain detach attach = (after, result) ∧
      ChainInvariant rules after ∧ SameNodes chain after ∧
      after.index = (verifyReorganizationValidity rules chain detach attach).1.index ∧
      ∀ journals, (verifyReorganizationValidity rules chain detach attach).2 =
        .ok journals → result = .ok () := by
  obtain ⟨verified, result, verification, holds, statuses, valid⟩ :=
    verifyReorganizationValidity_spec invariant plan
  rw [reorganizeChain, verification]
  cases result with
  | error error => exact ⟨_, _, rfl, holds, statuses.nodes, rfl, by rintro _ ⟨⟩⟩
  | ok journals =>
    obtain ⟨rfl, attached⟩ := valid journals rfl
    have plan := plan.of_onlyStatuses statuses
    obtain ⟨fork, last, path, branch⟩ := plan.meets
    obtain ⟨lower, disconnected, holds, tip, index⟩ := disconnectNodes_spec holds path
    have sameNodes : SameNodes verified lower := by
      intro hash
      rw [lookupNode, index]
      rfl
    obtain ⟨last, connected, holds, _, indexAfter⟩ := connectNodes_spec holds (tip ▸ branch)
      (fun node member => (sameNodes _).trans (plan.indexed node member)) (by
        intro node member
        rw [nodeStatus, index]
        exact attached node member)
    simp only [disconnected, connected]
    refine ⟨_, _, rfl, holds, statuses.nodes.trans (sameNodes.trans ?_),
      indexAfter.trans index, fun _ _ => rfl⟩
    intro hash
    rw [lookupNode, indexAfter]
    rfl

end ModelOS.BlockChain
