import ModelOS.BlockChain.IssuanceOnce
import ModelOS.BlockChain.ManualVerdicts

namespace ModelOS.BlockChain

open Data Wire

/-! What a node holds after any sequence of calls. -/

section Runs

variable {rules : ChainRules} {genesis : MsgBlock} {state : ChainState}

theorem Reachable.root {actions : List Action} (reachable : Reachable rules genesis state)
    (found : lookupNode state.chain key = some node) :
    node.root = (run rules state actions).chain.tip.root := by
  induction actions generalizing state with
  | nil => exact reachable.treeState.tree.root key node found
  | cons action rest ih =>
    refine ih (reachable.step action) ?_
    cases action with
    | processBlock block flags adjustedTime keep =>
      exact (processBlock_tree reachable.treeState).2.nodes key node found
    | flushUtxoCache => exact found

/-- Where no block was added fast, those of the best chain have passed all checks. -/
theorem ScreenedState.acceptedChain (screened : ScreenedState rules state)
    (isGenesis : (BlockNode.genesis state.chain.tip.root).hash rules.sha256d = rules.genesisHash) :
    AcceptedChain rules state.chain.tip ∧ InContext rules state.chain.tip ∧
      ChainInOrder rules state.chain.tip := by
  have passed : ∀ parent block, BlockNode.child parent block ∈ state.chain.tip.ancestors →
      PassesSanity rules block ∧ (∃ checkpoint, PassesContext rules parent block checkpoint) ∧
        PassesConnect rules parent block ∧
        Ledger.InOrder (transfersOf rules (.child parent block)) := by
    intro parent block member
    obtain ⟨entry, indexed, isNode, passes⟩ := screened.bestChainValidated parent block member
    have screens := screened.index _ entry parent block indexed isNode
    have child := screened.chain.children _ entry parent block indexed isNode
    obtain ⟨context, connects⟩ := passes screens.full
    exact ⟨screens.sanity, ⟨_, context⟩, connects, child.inOrder parent child.linked connects⟩
  refine ⟨⟨isGenesis, ?_⟩, ?_, ?_⟩
  · intro parent block member
    obtain ⟨sane, _, connects, _⟩ := passed parent block member
    exact ⟨sane, connects⟩
  · intro parent block member
    exact (passed parent block member).2.1
  · intro parent block member
    exact (passed parent block member).2.2.2

/-- In a run without fast adds and without blocks that spend their own later outputs, whatever it
reorganises, no more is unspent than was paid out, no two transactions of the best chain share an
identifier, and no output is spent twice. -/
theorem run_ledger_sound (rules : ChainRules) (inference : InferenceRules) (network : ChainRules)
    (isNetwork : network = rules.withInference inference) (genesis : MsgBlock)
    (isGenesis : (BlockNode.genesis genesis).hash network.sha256d = network.genesisHash)
    (actions : List Action) (full : ∀ action ∈ actions, action.Full network) (chain : Chain)
    (reached : chain = (run network (.initial network genesis) actions).chain) :
    chain.utxoCache.unspent.total coinAmount ≤ subsidies network chain.tip + issuance chain.tip ∧
      (Set.InjOn network.sha256d (txMessages chain.tip) →
        ((chainHistory network chain.tip).map Prod.fst).Nodup ∧
        (chainHistory network chain.tip).Pairwise fun first second =>
          List.Disjoint first.2.spent second.2.spent) := by
  have screened := run_screened (screenedState_initial network genesis) full
  have root := @Reachable.root network genesis _ _ _ actions .initial
    (stateInvariant_initial network genesis).chain.tip
  obtain ⟨accepted, context, inOrder⟩ := screened.acceptedChain (root ▸ isGenesis)
  have utxos := screened.chain.utxos
  rw [← reached] at accepted context inOrder utxos
  subst isNetwork
  refine ⟨utxos ▸ (accepted.conserved inOrder).2.2, ?_⟩
  intro messages
  have history := accepted.history context messages inOrder
  exact ⟨history.nodup, history.disjoint_spent⟩

open ForwardSpend in
open SimNetExample (genesisBlock) in
/-- The second block spends what the first one has paid. -/
theorem run_ledger_sound_payment :
    ((chainHistory network (.child firstNode honestBlock)).map Prod.fst).Nodup := by
  have ran := @run_deliver network (.initial network genesisBlock) 1776675700
    [firstBlock, honestBlock] rfl (by decide +kernel)
  have tip : ([firstBlock, honestBlock].foldl (deliver network)
      (.initial network genesisBlock)).tip = .child firstNode honestBlock := by
    decide +kernel
  have inOrder : ∀ block ∈ [firstBlock, honestBlock],
      Ledger.InOrder (transfersOf network (.child firstNode block)) := by
    decide
  have messages : ∀ first ∈ chainTxs (.child firstNode honestBlock),
      ∀ second ∈ chainTxs (.child firstNode honestBlock),
        network.sha256d first.2.serializeNoWitness =
          network.sha256d second.2.serializeNoWitness →
        first.2.serializeNoWitness = second.2.serializeNoWitness := by
    decide +kernel
  have sound := run_ledger_sound ForwardSpend.rules ForwardSpend.inference network rfl
    genesisBlock (by decide) _ (fun action member => by
      obtain ⟨block, listed, rfl⟩ := List.mem_map.mp member
      exact ⟨rfl, spendsInOrder_of_inOrder (inOrder block listed)⟩)
    _ (congrArg ChainState.chain ran).symm
  rw [tip] at sound
  refine (sound.2 ?_).1
  rintro _ ⟨first, firstMember, rfl⟩ _ ⟨second, secondMember, rfl⟩
  exact messages first firstMember second secondMember

end Runs

end ModelOS.BlockChain
