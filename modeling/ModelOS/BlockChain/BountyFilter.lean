import ModelOS.BlockChain.SkipList
import ModelOS.BlockChain.Undo

namespace ModelOS.BlockChain

open Data Wire

/-! The check before a block is built looks the confirming blocks up from the tip, the
rule on the block from the new block. -/

section Filter

variable {sha256d : Bytes → Hash} {inference : InferenceRules} {tip : BlockNode}
  {block : MsgBlock} {tx : MsgTx} {entries : UtxoEntries} {entry : UtxoEntry} {txIn : TxIn}

theorem checkInferenceBountyInput_eq_ok :
    checkInferenceBountyInput sha256d inference tx node spendHeight entries unresolved txIn =
        .ok () ↔ ∀ entry params, entries txIn.previousOutPoint = some entry →
        parseInferenceBountyScript entry.pkScript = some params →
        ∃ ancestor, node.ancestor entry.height = some ancestor ∧
          checkInferenceBountySpend inference.sha3 inference.schnorr tx params
            txIn.previousOutPoint entry.height spendHeight (ancestor.hash sha256d)
            (refundSigOf txIn) = .ok () := by
  rw [checkInferenceBountyInput]
  cases held : entries txIn.previousOutPoint with
  | none =>
    refine ⟨fun _ entry params absent => ?_, fun _ => rfl⟩
    cases absent
  | some entry =>
    dsimp only
    cases parsed : parseInferenceBountyScript entry.pkScript with
    | none =>
      refine ⟨fun _ other params same isBounty => ?_, fun _ => rfl⟩
      cases same
      rw [parsed] at isBounty
      cases isBounty
    | some params =>
      simp only [bind_eq_ok, present_eq_ok]
      refine ⟨fun accepted other otherParams same isBounty => ?_,
        fun accepted => accepted entry params rfl parsed⟩
      cases same
      cases parsed.symm.trans isBounty
      exact accepted

/-- The lookup from the tip and the lookup from the new block find the same block. -/
theorem checkInferenceBountyInput_child (int32 : tip.ancestors.length < 2 ^ 31)
    (confirmed : ∀ outPoint entry, entries outPoint = some entry → entry.height ≤ tip.height)
    (first second : String) :
    checkInferenceBountyInput sha256d inference tx tip (tip.height + 1) entries first txIn =
        .ok () ↔ checkInferenceBountyInput sha256d inference tx (.child tip block)
        (BlockNode.child tip block).height entries second txIn = .ok () := by
  rw [checkInferenceBountyInput_eq_ok, checkInferenceBountyInput_eq_ok]
  refine forall₄_congr fun entry params held _ => ?_
  rw [BlockNode.ancestor_child (by exact int32) (confirmed _ _ held)]
  rfl

theorem ancestor_above_tip (int32 : tip.ancestors.length < 2 ^ 31) (block : MsgBlock) :
    tip.ancestor (tip.height + 1) = none := by
  apply if_pos
  right
  have here := BlockNode.toInt_height (Nat.le_of_lt int32)
  have above := @BlockNode.toInt_height (.child tip block) (by exact int32)
  rw [BlockNode.ancestors, List.length_cons] at above
  rw [Int32.lt_iff_toInt_lt]
  change tip.height.toInt < (BlockNode.child tip block).height.toInt
  omega

theorem blockHash_of_claim
    (within : inferenceBountyWithinWindow confirmHeight spendHeight = true)
    (accepted : checkInferenceBountySpend sha3 schnorr tx params bounty confirmHeight
      spendHeight confirmBlockHash refundSig = .ok ()) :
    ∃ proof, extractInferenceResultProof tx = .ok proof ∧ proof.blockHash = confirmBlockHash := by
  rw [checkInferenceBountySpend, if_pos within] at accepted
  simp only [validateInferenceBountyClaim, bind_eq_ok, describe_eq_ok, require_eq_ok]
    at accepted
  obtain ⟨proof, extracted, _, named, -⟩ := accepted
  exact ⟨proof, extracted, named⟩

end Filter

/-- For entries that are confirmed at the tip or below, the check before a block is built
accepts what the block's own rule accepts.  A bounty of the block itself is refused before
the block is built, and in the block every claim that names a hash known before. -/
theorem bountyFilter_agrees (sha256d : Bytes → Hash) (inference : InferenceRules)
    {tip : BlockNode} (int32 : tip.ancestors.length < 2 ^ 31) (block : MsgBlock) :
    (∀ height, tip.skipAncestor height = tip.ancestor height ∧
      (BlockNode.child tip block).skipAncestor height =
        (BlockNode.child tip block).ancestor height) ∧
    ∀ (tx : MsgTx) (entries : UtxoEntries),
      ((∀ outPoint entry, entries outPoint = some entry → entry.height ≤ tip.height) →
        (checkInferenceBountySpendsAgainstTip sha256d inference tx tip entries = .ok () ↔
          checkInferenceBountySpends sha256d inference tx (.child tip block) entries = .ok ())) ∧
      ∀ txIn ∈ tx.txIn, ∀ entry, entries txIn.previousOutPoint = some entry →
        isInferenceBountyScript entry.pkScript = true → entry.height = tip.height + 1 →
        checkInferenceBountySpendsAgainstTip sha256d inference tx tip entries ≠ .ok () ∧
        ∀ known : List Hash, (BlockNode.child tip block).hash sha256d ∉ known →
          (∀ proof, extractInferenceResultProof tx = .ok proof → proof.blockHash ∈ known) →
          checkInferenceBountySpends sha256d inference tx (.child tip block) entries ≠ .ok () := by
  have low : (BlockNode.child tip block).ancestors.length ≤ 2 ^ 31 := int32
  refine ⟨fun height => ⟨BlockNode.skipAncestor_eq_ancestor (Nat.le_of_lt int32) height,
    BlockNode.skipAncestor_eq_ancestor low height⟩, fun tx entries => ⟨?_, ?_⟩⟩
  · intro confirmed
    rw [checkInferenceBountySpendsAgainstTip, checkInferenceBountySpends, forM_eq_ok, forM_eq_ok]
    exact forall₂_congr fun txIn _ => checkInferenceBountyInput_child int32 confirmed _ _
  · intro txIn member entry held isBounty sameBlock
    obtain ⟨params, parsed⟩ := Option.isSome_iff_exists.mp isBounty
    refine ⟨fun accepted => ?_, fun known new named accepted => ?_⟩
    · rw [checkInferenceBountySpendsAgainstTip, forM_eq_ok] at accepted
      obtain ⟨ancestor, isAncestor, -⟩ :=
        checkInferenceBountyInput_eq_ok.mp (accepted txIn member) entry params held parsed
      rw [sameBlock, ancestor_above_tip int32 block] at isAncestor
      cases isAncestor
    · rw [checkInferenceBountySpends, forM_eq_ok] at accepted
      obtain ⟨ancestor, isAncestor, spend⟩ :=
        checkInferenceBountyInput_eq_ok.mp (accepted txIn member) entry params held parsed
      have nonneg : 0 ≤ (BlockNode.child tip block).height := by
        rw [Int32.le_iff_toInt_le, BlockNode.toInt_height low, BlockNode.ancestors,
          List.length_cons]
        change (0 : Int) ≤ _
        omega
      change entry.height = (BlockNode.child tip block).height at sameBlock
      rw [sameBlock, BlockNode.ancestor_self nonneg] at isAncestor
      cases isAncestor
      have within : inferenceBountyWithinWindow entry.height
          (BlockNode.child tip block).height = true := by
        rw [sameBlock, inferenceBountyWithinWindow, Int32.sub_self]
        decide
      obtain ⟨proof, extracted, blockHash⟩ := blockHash_of_claim within spend
      exact new (blockHash ▸ named proof extracted)

namespace RefundExample

def inference : InferenceRules where
  sha3 := sha3
  schnorr := schnorr
  computeTaprootKeyNoScript := fun _ => .zero 32
  getScriptClass := fun _ => .nonStandardTy
  maxSupportedTxVersion := 5
  targetTimePerBlock := 194
  targetTimePerBlock_pos := targetTime_pos

def headerHash (_ : Bytes) : Hash :=
  .ofNat 32 0xa7366ccb1639073135c23b8b20ed8b480acf63e25358f4e17b4f5a7f8fcd340c

def blocksAbove : Nat → BlockNode
  | 0 => .genesis (TwoBlocks.block [])
  | count + 1 => .child (blocksAbove count) (TwoBlocks.block [])

def entries : UtxoEntries :=
  Function.update (fun _ => none) bounty (some
    { amount := 100000, pkScript := buildInferenceBountyScript params, height := 0,
      isCoinBase := false, spent := false, fresh := false })

end RefundExample

open RefundExample in
theorem bountyFilter_agrees_refund :
    checkInferenceBountySpendsAgainstTip headerHash inference refundTx (blocksAbove 5)
        entries = .ok () ∧ checkInferenceBountySpends headerHash inference refundTx
        (.child (blocksAbove 5) (TwoBlocks.block [])) entries = .ok () := by
  have accepted : checkInferenceBountySpendsAgainstTip headerHash inference refundTx
      (blocksAbove 5) entries = .ok () := by
    decide
  have confirmed : ∀ outPoint entry, entries outPoint = some entry →
      entry.height ≤ (blocksAbove 5).height := by
    intro outPoint entry held
    simp only [entries, Function.update_apply] at held
    split at held
    · cases held
      decide
    · cases held
  have int32 : (blocksAbove 5).ancestors.length < 2 ^ 31 := by
    decide
  have agrees := (bountyFilter_agrees headerHash inference int32
    (TwoBlocks.block [])).2 refundTx entries
  exact ⟨accepted, (agrees.1 confirmed).mp accepted⟩

end ModelOS.BlockChain
