import ModelOS.BlockChain.BestChain

namespace ModelOS.BlockChain

open Data Wire ZkPow

/-! Pooled blocks are served inside the call of the block they wait for, and their
errors are that call's errors. -/

section Verdict

variable {rules : ChainRules} {flags : BehaviorFlags} {chain : Chain} {orphans : List OrphanBlock}

/-- The pooled blocks that the queued hashes bring in, in the order in which they
are served.  It depends on the pool alone. -/
def pooledDescendants (rules : ChainRules) (orphans : List OrphanBlock)
    (queue : List Hash) : List OrphanBlock :=
  match queue with
  | [] => []
  | hash :: rest =>
    match _found : orphans.find? (dependsOn hash) with
    | none => pooledDescendants rules orphans rest
    | some orphan =>
      orphan :: pooledDescendants rules (removeOrphanBlock rules orphans orphan)
        (hash :: rest ++ [blockHashOf rules orphan.block])
termination_by (orphans.length, queue.length)
decreasing_by
  · exact Prod.Lex.right _ (Nat.lt_succ_self _)
  · exact Prod.Lex.left _ _ (length_removeOrphanBlock rules (List.mem_of_find?_eq_some _found))

/-- Each block is accepted on the chain that those before it leave. -/
def AcceptedInTurn (rules : ChainRules) (flags : BehaviorFlags) : Chain → List OrphanBlock → Prop
  | _, [] => True
  | chain, orphan :: rest =>
    ∃ after isMainChain, maybeAcceptBlock rules chain orphan.block flags orphan.fastAdded =
        (after, .ok isMainChain) ∧ AcceptedInTurn rules flags after rest

theorem pooledDescendants_of_none {hash : Hash}
    (absent : orphans.find? (dependsOn hash) = none) :
    pooledDescendants rules orphans (hash :: rest) = pooledDescendants rules orphans rest := by
  rw [pooledDescendants]
  split
  · rfl
  · next found =>
    rw [absent] at found
    cases found

theorem pooledDescendants_of_some {hash : Hash}
    (found : orphans.find? (dependsOn hash) = some orphan) :
    pooledDescendants rules orphans (hash :: rest) =
      orphan :: pooledDescendants rules (removeOrphanBlock rules orphans orphan)
        (hash :: rest ++ [blockHashOf rules orphan.block]) := by
  rw [pooledDescendants]
  split
  · next absent =>
    rw [found] at absent
    cases absent
  · next other isOrphan =>
    obtain rfl := Option.some.inj (found.symm.trans isOrphan)
    rfl

theorem processOrphans_eq_ok_iff :
    (processOrphans rules flags chain orphans queue).2 = .ok () ↔
      AcceptedInTurn rules flags chain (pooledDescendants rules orphans queue) := by
  fun_induction processOrphans rules flags chain orphans queue with
  | case1 chain orphans => simp [pooledDescendants, AcceptedInTurn]
  | case2 chain orphans hash rest absent ih =>
    rw [pooledDescendants_of_none absent]
    exact ih
  | case3 chain orphans hash rest orphan found remaining after error failed =>
    rw [pooledDescendants_of_some found]
    simp [AcceptedInTurn, failed]
  | case4 chain orphans hash rest orphan found remaining after isMainChain accepted ih =>
    rw [pooledDescendants_of_some found, AcceptedInTurn, ih]
    constructor
    · intro rest
      exact ⟨after, isMainChain, accepted, rest⟩
    · rintro ⟨other, _, same, rest⟩
      rw [accepted] at same
      cases same
      exact rest

theorem pooledDescendants_singleton {hash : Hash}
    (waits : dependsOn hash orphan = true) :
    pooledDescendants rules [orphan] [hash] = [orphan] := by
  have found : [orphan].find? (dependsOn hash) = some orphan := by
    rw [List.find?_cons_of_pos waits]
  have removed : removeOrphanBlock rules [orphan] orphan = [] := by
    simp [removeOrphanBlock]
  rw [pooledDescendants_of_some found, removed, List.cons_append,
    pooledDescendants_of_none rfl, List.nil_append, pooledDescendants_of_none rfl,
    pooledDescendants]

section Alone

variable {block : MsgBlock} {adjustedTime : Nat} {keep : OrphanBlock → Bool}

/-- The call as it goes with an empty pool. -/
def processAlone (rules : ChainRules) (chain : Chain) (block : MsgBlock)
    (flags : BehaviorFlags) (adjustedTime : Nat) (keep : OrphanBlock → Bool) :
    ChainState × Except ChainError (Bool × Bool) :=
  processBlock rules ⟨chain, []⟩ block flags adjustedTime keep

theorem serveOrphans_eq_ok_iff :
    (serveOrphans rules flags chain orphans block isMainChain).2 = .ok (isMainChain, false) ↔
      AcceptedInTurn rules flags chain
        (pooledDescendants rules orphans [blockHashOf rules block]) := by
  rw [← processOrphans_eq_ok_iff, serveOrphans]
  split
  · next ended => simp [ended]
  · next ended => simp [ended]

/-- A block that is not pooled itself fares with a pool as it does alone, as long
as the blocks it brings in are accepted. -/
theorem verdict_eq_alone_iff_of_not_pooled
    (parentKnown : blockExists chain block.msgHeader.blockHeader.prevBlock = true)
    (isNew : blockExists chain (blockHashOf rules block) = false)
    (notPooled : isPooled rules orphans block = false) :
    (processBlock rules ⟨chain, orphans⟩ block flags adjustedTime keep).2 =
        (processAlone rules chain block flags adjustedTime keep).2 ↔ ∀ verdict,
        (processAlone rules chain block flags adjustedTime keep).2 = .ok verdict →
        AcceptedInTurn rules flags (processAlone rules chain block flags adjustedTime keep).1.chain
          (pooledDescendants rules orphans [blockHashOf rules block]) := by
  have alone : Processed rules ⟨chain, []⟩ block flags adjustedTime keep
      (processAlone rules chain block flags adjustedTime keep) := processed_processBlock
  have unseen : Unseen rules ⟨chain, orphans⟩ block := ⟨isNew, notPooled⟩
  generalize processAlone rules chain block flags adjustedTime keep = own at *
  cases alone with
  | duplicate known => simp [isNew] at known
  | pooled _ pooled => simp [isPooled] at pooled
  | insane error _ failed =>
    simp [processBlock_of_insane unseen failed]
  | behindCheckpoint error _ sane failed =>
    simp [processBlock_of_behindCheckpoint unseen sane failed]
  | admitted _ admissible admitted =>
    have admissible : Admissible rules ⟨chain, orphans⟩ block flags adjustedTime :=
      ⟨unseen, admissible.sane, admissible.checkpoint⟩
    cases admitted with
    | orphan unknown => simp [unknown] at parentKnown
    | refused after error _ failed =>
      simp [processBlock_of_refused admissible parentKnown failed]
    | accepted after isMainChain _ passed =>
      rw [processBlock_of_accepted admissible parentKnown passed, serveOrphans_nil]
      simpa using serveOrphans_eq_ok_iff

/-- Alone or with any pool, a block whose parent is known gets the same answer
exactly when it is known already, or when it is not pooled itself and every
pooled block that its acceptance brings in is accepted in its turn.  A pooled
block is answered as a duplicate, whatever its own rules say. -/
theorem processBlock_verdict_eq_alone_iff (rules : ChainRules) (chain : Chain)
    (orphans : List OrphanBlock) (block : MsgBlock) (flags : BehaviorFlags)
    (adjustedTime : Nat) (keep : OrphanBlock → Bool)
    (parentKnown : blockExists chain block.msgHeader.blockHeader.prevBlock = true) :
    (processBlock rules ⟨chain, orphans⟩ block flags adjustedTime keep).2 =
        (processAlone rules chain block flags adjustedTime keep).2 ↔
      blockExists chain (blockHashOf rules block) = true ∨ isPooled rules orphans block = true ∧
        (processAlone rules chain block flags adjustedTime keep).2 =
          .error (duplicateOrphan rules block) ∨ isPooled rules orphans block = false ∧ ∀ verdict,
          (processAlone rules chain block flags adjustedTime keep).2 = .ok verdict →
          AcceptedInTurn rules flags
            (processAlone rules chain block flags adjustedTime keep).1.chain
            (pooledDescendants rules orphans [blockHashOf rules block]) := by
  cases isNew : blockExists chain (blockHashOf rules block) with
  | true =>
    have alone : processAlone rules chain block flags adjustedTime keep = _ :=
      processBlock_of_known isNew
    have pooled := @processBlock_of_known rules flags ⟨chain, orphans⟩ block adjustedTime keep isNew
    simp [alone, pooled]
  | false =>
    cases pooled : isPooled rules orphans block with
    | true =>
      have answer := @processBlock_of_pooled rules flags ⟨chain, orphans⟩ block
        adjustedTime keep isNew pooled
      simp [answer, eq_comm]
    | false =>
      rw [verdict_eq_alone_iff_of_not_pooled parentKnown isNew pooled]
      simp

end Alone

end Verdict

def errorCodeOf {α : Type} : Except ChainError α → Option ErrorCode
  | .error (.rule error) => some error.errorCode
  | _ => none

def lowQualityStrikeLimit : Nat := 5

def strikeNonTip (nonTipStrikes : Nat) : Nat :=
  if nonTipStrikes < lowQualityStrikeLimit then nonTipStrikes + 1
  else nonTipStrikes

/-- The strikes of the peer that sent the block, after its call has returned. -/
def handleBlockMsgStrikes (nonTipStrikes : Nat) : Except ChainError (Bool × Bool) → Nat
  | .ok (true, _) => 0
  | .ok (false, _) => nonTipStrikes
  | .error (.rule error) =>
    if error.errorCode ≠ .errDuplicateBlock then strikeNonTip nonTipStrikes
    else nonTipStrikes
  | .error (.assert _) => strikeNonTip nonTipStrikes

namespace SimNetExample

def pooling (child : MsgBlock) : ChainState :=
  run rules (.initial rules genesisBlock) [submit child .none]

theorem pooling_eq
    (childNew : blockExists (Chain.initial rules genesisBlock) (blockHashOf rules child) = false)
    (childSane : checkBlockSanity rules child 1776675700 .none = .ok ())
    (unknown : blockExists (Chain.initial rules genesisBlock)
      child.msgHeader.blockHeader.prevBlock = false) :
    pooling child = ⟨.initial rules genesisBlock, [⟨child, false⟩]⟩ :=
  congrArg Prod.fst (processBlock_of_orphan (.of_noCheckpoints rfl childNew rfl childSane) unknown)

theorem processBlock_firstBlock
    (notPooled : isPooled rules orphans firstBlock = false) :
    processBlock rules ⟨.initial rules genesisBlock, orphans⟩ firstBlock .none
        1776675700 (fun _ => true) =
      serveOrphans rules .none (maybeAcceptBlock rules (.initial rules genesisBlock)
        firstBlock .none false).1 orphans firstBlock true := by
  have admissible : Admissible rules ⟨.initial rules genesisBlock, orphans⟩
      firstBlock .none 1776675700 :=
    .of_noCheckpoints rfl firstBlock_isNew notPooled (by decide)
  have accepted : (maybeAcceptBlock rules (.initial rules genesisBlock) firstBlock
      .none false).2 = .ok true := by
    decide
  exact processBlock_of_accepted admissible firstBlock_parentKnown (Prod.ext rfl accepted)

def firstAlone : ChainState × Except ChainError (Bool × Bool) :=
  processAlone rules (.initial rules genesisBlock) firstBlock .none 1776675700
    fun _ => true

theorem firstAlone_eq : firstAlone =
    (⟨(maybeAcceptBlock rules (.initial rules genesisBlock) firstBlock .none
      false).1, []⟩, .ok (true, false)) :=
  (processBlock_firstBlock rfl).trans serveOrphans_nil

end SimNetExample

open SimNetExample in
theorem processBlock_verdict_eq_alone_simNet :
    (pooling secondBlock).orphans = [⟨secondBlock, false⟩] ∧
    (processBlock rules ⟨.initial rules genesisBlock, [⟨secondBlock, false⟩]⟩
      firstBlock .none 1776675700 fun _ => true).2 = firstAlone.2 := by
  constructor
  · rw [pooling_eq (by decide) (by decide) (by decide)]
  · refine (processBlock_verdict_eq_alone_iff rules (.initial rules genesisBlock)
      [⟨secondBlock, false⟩] firstBlock .none 1776675700 (fun _ => true)
      firstBlock_parentKnown).mpr (.inr (.inr ⟨by decide, ?_⟩))
    intro verdict _
    change AcceptedInTurn rules .none firstAlone.1.chain _
    rw [pooledDescendants_singleton (by decide), firstAlone_eq]
    exact ⟨_, true, Prod.ext rfl (by decide), trivial⟩

open SimNetExample in
/-- A valid block is reported as rejected, and its sender struck, because a block
that waits for it in the pool is invalid. -/
theorem processBlock_verdict_ne_alone_simNet : firstAlone.2 = .ok (true, false) ∧
    errorCodeOf (processBlock rules (pooling wrongBlock) firstBlock .none 1776675700
      fun _ => true).2 = some .errUnexpectedDifficulty ∧
    handleBlockMsgStrikes 0 (processBlock rules (pooling wrongBlock) firstBlock
      .none 1776675700 fun _ => true).2 = 1 := by
  refine ⟨by rw [firstAlone_eq], ?_⟩
  have notPooled : isPooled rules [⟨wrongBlock, false⟩] firstBlock = false := by
    decide
  have waits : dependsOn (blockHashOf rules firstBlock) ⟨wrongBlock, false⟩ = true := by
    decide
  rw [pooling_eq (by decide) (by decide) (by decide),
    processBlock_firstBlock notPooled, serveOrphans, processOrphans_singleton waits]
  decide

end ModelOS.BlockChain
