import ModelOS.BlockChain.Chain

namespace ModelOS.BlockChain

open Data Wire ZkPow

/-! Everything that one call of `processBlock` can do, said once. -/

section Process

variable {rules : ChainRules} {flags : BehaviorFlags} {chain : Chain} {orphans : List OrphanBlock}

theorem findPreviousCheckpoint_chain :
    ∃ checkpointNode nextCheckpoint, (findPreviousCheckpoint rules chain).1 =
      { chain with checkpointNode, nextCheckpoint } := by
  unfold findPreviousCheckpoint
  split
  · exact ⟨_, _, rfl⟩
  · split
    · split
      · exact ⟨_, _, rfl⟩
      · exact ⟨_, _, rfl⟩
    · exact ⟨_, _, rfl⟩
    · split
      · exact ⟨_, _, rfl⟩
      · split
        · exact ⟨_, _, rfl⟩
        · exact ⟨_, _, rfl⟩

theorem afterContextLookup_chain {header : BlockHeader} {parent : BlockNode} :
    ∃ checkpointNode nextCheckpoint, afterContextLookup rules chain header parent flags =
        { chain with checkpointNode, nextCheckpoint } := by
  unfold afterContextLookup
  split
  · exact findPreviousCheckpoint_chain
  · exact ⟨chain.checkpointNode, chain.nextCheckpoint, rfl⟩

theorem blockExists_findPreviousCheckpoint {hash : Hash} :
    blockExists (findPreviousCheckpoint rules chain).1 hash = blockExists chain hash := by
  obtain ⟨_, _, moved⟩ := @findPreviousCheckpoint_chain rules chain
  rw [moved]
  rfl

theorem processOrphans_empty :
    processOrphans rules flags chain orphans [] = (⟨chain, orphans⟩, .ok ()) := by
  unfold processOrphans
  rfl

theorem processOrphans_of_none {hash : Hash}
    (absent : orphans.find? (dependsOn hash) = none) :
    processOrphans rules flags chain orphans (hash :: rest) =
      processOrphans rules flags chain orphans rest := by
  rw [processOrphans]
  split
  · rfl
  · next found =>
    rw [absent] at found
    cases found

section Served

variable {hash : Hash} {rest : List Hash} {orphan : OrphanBlock} {after : Chain}
  (found : orphans.find? (dependsOn hash) = some orphan)
include found

theorem processOrphans_of_refused
    (failed : maybeAcceptBlock rules chain orphan.block flags orphan.fastAdded =
      (after, .error error)) : processOrphans rules flags chain orphans (hash :: rest) =
      (⟨after, removeOrphanBlock rules orphans orphan⟩, .error error) := by
  rw [processOrphans]
  split
  · next absent =>
    rw [found] at absent
    cases absent
  · next other isOrphan =>
    obtain rfl := Option.some.inj (found.symm.trans isOrphan)
    rw [failed]

theorem processOrphans_of_accepted
    (passed : maybeAcceptBlock rules chain orphan.block flags orphan.fastAdded =
      (after, .ok isMainChain)) : processOrphans rules flags chain orphans (hash :: rest) =
      processOrphans rules flags after (removeOrphanBlock rules orphans orphan)
        (hash :: rest ++ [blockHashOf rules orphan.block]) := by
  rw [processOrphans]
  split
  · next absent =>
    rw [found] at absent
    cases absent
  · next other isOrphan =>
    obtain rfl := Option.some.inj (found.symm.trans isOrphan)
    rw [passed]

end Served

theorem processOrphans_of_no_dependents {hash : Hash}
    (alone : ∀ orphan ∈ orphans, dependsOn hash orphan = false) :
    processOrphans rules flags chain orphans [hash] = (⟨chain, orphans⟩, .ok ()) := by
  have none : orphans.find? (dependsOn hash) = none := by
    rw [List.find?_eq_none]
    intro orphan member
    rw [alone orphan member]
    exact Bool.false_ne_true
  rw [processOrphans_of_none none, processOrphans_empty]

theorem processOrphans_nil (queue : List Hash) :
    processOrphans rules flags chain [] queue = (⟨chain, []⟩, .ok ()) := by
  induction queue with
  | nil => exact processOrphans_empty
  | cons hash rest ih => rw [processOrphans_of_none rfl, ih]

theorem processOrphans_singleton {hash : Hash}
    (waits : dependsOn hash orphan = true) : processOrphans rules flags chain [orphan] [hash] =
      (⟨(maybeAcceptBlock rules chain orphan.block flags orphan.fastAdded).1, []⟩,
        (maybeAcceptBlock rules chain orphan.block flags orphan.fastAdded).2.map
          fun _ => ()) := by
  have found : [orphan].find? (dependsOn hash) = some orphan := by
    rw [List.find?_cons_of_pos waits]
  have removed : removeOrphanBlock rules [orphan] orphan = [] := by
    simp [removeOrphanBlock]
  cases ended : maybeAcceptBlock rules chain orphan.block flags orphan.fastAdded with
  | mk after result =>
    cases result with
    | error error =>
      rw [processOrphans_of_refused found ended, removed]
      rfl
    | ok isMainChain =>
      rw [processOrphans_of_accepted found ended, removed, processOrphans_nil]
      rfl

/-- What serving one pooled block keeps, serving any number of them keeps. -/
theorem processOrphans_induction {holds : ChainState → Prop} {queue : List Hash}
    (serves : ∀ {chain orphans orphan after result}, orphan ∈ orphans →
      maybeAcceptBlock rules chain orphan.block flags orphan.fastAdded = (after, result) →
        holds ⟨chain, orphans⟩ → holds ⟨after, removeOrphanBlock rules orphans orphan⟩)
    (before : holds ⟨chain, orphans⟩) :
    holds (processOrphans rules flags chain orphans queue).1 := by
  fun_induction processOrphans rules flags chain orphans queue with
  | case1 => exact before
  | case2 _ _ _ _ _ ih => exact ih before
  | case3 _ _ _ _ _ found _ _ _ failed =>
    exact serves (List.mem_of_find?_eq_some found) failed before
  | case4 _ _ _ _ _ found _ _ _ ended ih =>
    exact ih (serves (List.mem_of_find?_eq_some found) ended before)

variable {state : ChainState} {block : MsgBlock} {adjustedTime : Nat} {keep : OrphanBlock → Bool}

def isPooled (rules : ChainRules) (orphans : List OrphanBlock) (block : MsgBlock) : Bool :=
  orphans.any fun orphan => blockHashOf rules orphan.block = blockHashOf rules block

theorem isPooled_eq_false_iff : isPooled rules orphans block = false ↔ ∀ orphan ∈ orphans,
      blockHashOf rules orphan.block ≠ blockHashOf rules block := by
  simp [isPooled]

def duplicateBlock (rules : ChainRules) (block : MsgBlock) : ChainError :=
  .rule (ruleError .errDuplicateBlock
    ("already have block " ++ hashString (blockHashOf rules block)))

def duplicateOrphan (rules : ChainRules) (block : MsgBlock) : ChainError :=
  .rule (ruleError .errDuplicateBlock
    ("already have block (orphan) " ++ hashString (blockHashOf rules block)))

def checkCheckpoint (rules : ChainRules) (chain : Chain) (block : MsgBlock)
    (flags : BehaviorFlags) : Except ChainError Unit := do
  match ← (findPreviousCheckpoint rules chain).2 with
  | none => pure ()
  | some checkpointNode =>
    checkPreviousCheckpoint rules (findPreviousCheckpoint rules chain).1 block flags checkpointNode

structure Unseen (rules : ChainRules) (state : ChainState) (block : MsgBlock) : Prop where
  isNew : blockExists state.chain (blockHashOf rules block) = false
  notPooled : isPooled rules state.orphans block = false

/-- The block has passed every check that is made before its parent is looked
for. -/
structure Admissible (rules : ChainRules) (state : ChainState) (block : MsgBlock)
    (flags : BehaviorFlags) (adjustedTime : Nat) : Prop extends Unseen rules state block where
  sane : checkBlockSanity rules block adjustedTime flags = .ok ()
  checkpoint : checkCheckpoint rules state.chain block flags = .ok ()

def serveOrphans (rules : ChainRules) (flags : BehaviorFlags) (chain : Chain)
    (orphans : List OrphanBlock) (block : MsgBlock) (isMainChain : Bool) :
    ChainState × Except ChainError (Bool × Bool) :=
  match processOrphans rules flags chain orphans [blockHashOf rules block] with
  | (state, .error error) => (state, .error error)
  | (state, .ok ()) => (state, .ok (isMainChain, false))

theorem fst_serveOrphans :
    (serveOrphans rules flags chain orphans block isMainChain).1 =
      (processOrphans rules flags chain orphans [blockHashOf rules block]).1 := by
  unfold serveOrphans
  split
  · next ended => rw [ended]
  · next ended => rw [ended]

theorem serveOrphans_nil :
    serveOrphans rules flags chain [] block isMainChain =
      (⟨chain, []⟩, .ok (isMainChain, false)) := by
  simp only [serveOrphans, processOrphans_nil]

inductive Admitted (rules : ChainRules) (state : ChainState) (block : MsgBlock)
    (flags : BehaviorFlags) (keep : OrphanBlock → Bool) :
    ChainState × Except ChainError (Bool × Bool) → Prop
  | orphan (unknown : blockExists state.chain block.msgHeader.blockHeader.prevBlock = false) :
      Admitted rules state block flags keep (⟨(findPreviousCheckpoint rules state.chain).1,
          addOrphanBlock keep state.orphans ⟨block, flags.fastAdd⟩⟩, .ok (false, true))
  | refused (after : Chain) (error : ChainError)
      (parentKnown : blockExists state.chain block.msgHeader.blockHeader.prevBlock = true)
      (failed : maybeAcceptBlock rules (findPreviousCheckpoint rules state.chain).1
        block flags flags.fastAdd = (after, .error error)) : Admitted rules state block flags keep
        ({ state with chain := after }, .error error)
  | accepted (after : Chain) (isMainChain : Bool)
      (parentKnown : blockExists state.chain block.msgHeader.blockHeader.prevBlock = true)
      (passed : maybeAcceptBlock rules (findPreviousCheckpoint rules state.chain).1
        block flags flags.fastAdd = (after, .ok isMainChain)) :
      Admitted rules state block flags keep
        (serveOrphans rules flags after state.orphans block isMainChain)

inductive Processed (rules : ChainRules) (state : ChainState) (block : MsgBlock)
    (flags : BehaviorFlags) (adjustedTime : Nat) (keep : OrphanBlock → Bool) :
    ChainState × Except ChainError (Bool × Bool) → Prop
  | duplicate (known : blockExists state.chain (blockHashOf rules block) = true) :
      Processed rules state block flags adjustedTime keep
        (state, .error (duplicateBlock rules block))
  | pooled (isNew : blockExists state.chain (blockHashOf rules block) = false)
      (pooled : isPooled rules state.orphans block = true) :
      Processed rules state block flags adjustedTime keep
        (state, .error (duplicateOrphan rules block))
  | insane (error : RuleError) (unseen : Unseen rules state block)
      (failed : checkBlockSanity rules block adjustedTime flags = .error error) :
      Processed rules state block flags adjustedTime keep (state, .error (.rule error))
  | behindCheckpoint (error : ChainError) (unseen : Unseen rules state block)
      (sane : checkBlockSanity rules block adjustedTime flags = .ok ())
      (failed : checkCheckpoint rules state.chain block flags = .error error) :
      Processed rules state block flags adjustedTime keep
        ({ state with chain := (findPreviousCheckpoint rules state.chain).1 }, .error error)
  | admitted (outcome : ChainState × Except ChainError (Bool × Bool))
      (admissible : Admissible rules state block flags adjustedTime)
      (admitted : Admitted rules state block flags keep outcome) :
      Processed rules state block flags adjustedTime keep outcome

theorem processBlock_of_known (known : blockExists state.chain (blockHashOf rules block) = true) :
    processBlock rules state block flags adjustedTime keep =
      (state, .error (duplicateBlock rules block)) := by
  unfold processBlock
  rw [if_pos known]
  rfl

theorem processBlock_of_pooled (isNew : blockExists state.chain (blockHashOf rules block) = false)
    (pooled : isPooled rules state.orphans block = true) :
    processBlock rules state block flags adjustedTime keep =
      (state, .error (duplicateOrphan rules block)) := by
  unfold isPooled at pooled
  unfold processBlock
  dsimp only
  rw [if_neg (by simp [isNew]), if_pos pooled]
  rfl

/-- What happens to a block that passed the checks of the block alone. -/
def takeIn (rules : ChainRules) (state : ChainState) (block : MsgBlock)
    (flags : BehaviorFlags) (keep : OrphanBlock → Bool) :
    ChainState × Except ChainError (Bool × Bool) :=
  let chain := (findPreviousCheckpoint rules state.chain).1
  if !blockExists state.chain block.msgHeader.blockHeader.prevBlock then
    (⟨chain, addOrphanBlock keep state.orphans ⟨block, flags.fastAdd⟩⟩, .ok (false, true))
  else
    match maybeAcceptBlock rules chain block flags flags.fastAdd with
    | (after, .error error) => ({ state with chain := after }, .error error)
    | (after, .ok isMainChain) =>
      serveOrphans rules flags after state.orphans block isMainChain

theorem admitted_takeIn :
    Admitted rules state block flags keep (takeIn rules state block flags keep) := by
  unfold takeIn
  dsimp only
  split
  · next unknown => exact .orphan (by simpa using unknown)
  · next known =>
    have parentKnown : blockExists state.chain block.msgHeader.blockHeader.prevBlock = true := by
      simpa using known
    split
    · next after error failed => exact .refused after error parentKnown failed
    · next after isMainChain passed => exact .accepted after isMainChain parentKnown passed

theorem processBlock_of_unseen (unseen : Unseen rules state block) :
    processBlock rules state block flags adjustedTime keep =
      match checkBlockSanity rules block adjustedTime flags with
      | .error error => (state, .error (.rule error))
      | .ok () =>
        match checkCheckpoint rules state.chain block flags with
        | .error error =>
          ({ state with chain := (findPreviousCheckpoint rules state.chain).1 }, .error error)
        | .ok () => takeIn rules state block flags keep := by
  have notPooled := unseen.notPooled
  unfold isPooled at notPooled
  unfold processBlock takeIn
  dsimp only
  rw [if_neg (by simp [unseen.isNew]), if_neg (by simp [notPooled]),
    blockExists_findPreviousCheckpoint]
  rfl

theorem processed_processBlock : Processed rules state block flags adjustedTime keep
      (processBlock rules state block flags adjustedTime keep) := by
  by_cases known : blockExists state.chain (blockHashOf rules block) = true
  · rw [processBlock_of_known known]
    exact .duplicate known
  have isNew := Bool.eq_false_iff.mpr known
  by_cases pooled : isPooled rules state.orphans block = true
  · rw [processBlock_of_pooled isNew pooled]
    exact .pooled isNew pooled
  have unseen : Unseen rules state block := ⟨isNew, Bool.eq_false_iff.mpr pooled⟩
  rw [processBlock_of_unseen unseen]
  split
  · next error failed => exact .insane error unseen failed
  · next sane =>
    split
    · next error failed => exact .behindCheckpoint error unseen sane failed
    · next checkpoint => exact .admitted _ ⟨unseen, sane, checkpoint⟩ admitted_takeIn

theorem Admissible.index_findPreviousCheckpoint
    (admissible : Admissible rules state block flags adjustedTime) :
    (BlockChain.findPreviousCheckpoint rules state.chain).1.index
      (blockHashOf rules block) = none := by
  obtain ⟨_, _, moved⟩ := @findPreviousCheckpoint_chain rules state.chain
  rw [moved]
  simpa [blockExists] using admissible.isNew

theorem processBlock_induction {holds : ChainState → Prop} (before : holds state)
    (looked : holds { state with chain := (findPreviousCheckpoint rules state.chain).1 })
    (pools : Admissible rules state block flags adjustedTime →
      holds ⟨(findPreviousCheckpoint rules state.chain).1,
        addOrphanBlock keep state.orphans ⟨block, flags.fastAdd⟩⟩)
    (accepts : ∀ {after result}, Admissible rules state block flags adjustedTime →
      maybeAcceptBlock rules (findPreviousCheckpoint rules state.chain).1 block flags
        flags.fastAdd = (after, result) → holds ⟨after, state.orphans⟩)
    (serves : ∀ {after}, holds ⟨after, state.orphans⟩ →
      holds (processOrphans rules flags after state.orphans [blockHashOf rules block]).1) :
    holds (processBlock rules state block flags adjustedTime keep).1 := by
  have processed := @processed_processBlock rules flags state block adjustedTime keep
  generalize processBlock rules state block flags adjustedTime keep = outcome at *
  cases processed with
  | duplicate => exact before
  | pooled => exact before
  | insane => exact before
  | behindCheckpoint => exact looked
  | admitted _ admissible admitted =>
    cases admitted with
    | orphan => exact pools admissible
    | refused _ _ _ failed => exact accepts admissible failed
    | accepted _ _ _ passed =>
      rw [fst_serveOrphans]
      exact serves (accepts admissible passed)

theorem accepted_of_processBlock_eq_ok
    (ended : processBlock rules state block flags adjustedTime keep =
      (after, .ok (isMainChain, false))) : Admissible rules state block flags adjustedTime ∧
      blockExists state.chain block.msgHeader.blockHeader.prevBlock = true ∧
      ∃ joined, maybeAcceptBlock rules (findPreviousCheckpoint rules state.chain).1
          block flags flags.fastAdd = (joined, .ok isMainChain) ∧
        processOrphans rules flags joined state.orphans [blockHashOf rules block] =
          (after, .ok ()) := by
  have processed := @processed_processBlock rules flags state block adjustedTime keep
  generalize processBlock rules state block flags adjustedTime keep = outcome at *
  cases processed with
  | duplicate => cases ended
  | pooled => cases ended
  | insane => cases ended
  | behindCheckpoint => cases ended
  | admitted _ admissible admitted =>
    cases admitted with
    | orphan => cases ended
    | refused => cases ended
    | accepted joined _ parentKnown passed =>
      unfold serveOrphans at ended
      split at ended
      · cases ended
      · next served =>
        cases ended
        exact ⟨admissible, parentKnown, joined, passed, served⟩

theorem processBlock_of_insane (unseen : Unseen rules state block)
    (failed : checkBlockSanity rules block adjustedTime flags = .error error) :
    processBlock rules state block flags adjustedTime keep = (state, .error (.rule error)) := by
  rw [processBlock_of_unseen unseen, failed]

theorem processBlock_of_behindCheckpoint (unseen : Unseen rules state block)
    (sane : checkBlockSanity rules block adjustedTime flags = .ok ())
    (failed : checkCheckpoint rules state.chain block flags = .error error) :
    processBlock rules state block flags adjustedTime keep =
      ({ state with chain := (findPreviousCheckpoint rules state.chain).1 }, .error error) := by
  rw [processBlock_of_unseen unseen, sane, failed]

theorem Admissible.of_noCheckpoints (noCheckpoints : rules.checkpoints = [])
    (isNew : blockExists state.chain (blockHashOf rules block) = false)
    (notPooled : isPooled rules state.orphans block = false)
    (sane : checkBlockSanity rules block adjustedTime flags = .ok ()) :
    Admissible rules state block flags adjustedTime := by
  refine ⟨⟨isNew, notPooled⟩, sane, ?_⟩
  simp only [checkCheckpoint, findPreviousCheckpoint, noCheckpoints]
  rfl

section Admissible

variable (admissible : Admissible rules state block flags adjustedTime)
include admissible

theorem processBlock_of_admissible : processBlock rules state block flags adjustedTime keep =
      takeIn rules state block flags keep := by
  rw [processBlock_of_unseen admissible.toUnseen, admissible.sane, admissible.checkpoint]

theorem admitted_processBlock : Admitted rules state block flags keep
      (processBlock rules state block flags adjustedTime keep) := by
  rw [processBlock_of_admissible admissible]
  exact admitted_takeIn

theorem processBlock_of_orphan
    (unknown : blockExists state.chain block.msgHeader.blockHeader.prevBlock = false) :
    processBlock rules state block flags adjustedTime keep =
      (⟨(findPreviousCheckpoint rules state.chain).1,
        addOrphanBlock keep state.orphans ⟨block, flags.fastAdd⟩⟩, .ok (false, true)) := by
  rw [processBlock_of_admissible admissible, takeIn, unknown]
  rfl

variable (parentKnown : blockExists state.chain block.msgHeader.blockHeader.prevBlock = true)
include parentKnown

theorem processBlock_of_refused
    (failed : maybeAcceptBlock rules (findPreviousCheckpoint rules state.chain).1
      block flags flags.fastAdd = (after, .error error)) :
    processBlock rules state block flags adjustedTime keep =
      ({ state with chain := after }, .error error) := by
  rw [processBlock_of_admissible admissible, takeIn, parentKnown, failed]
  rfl

theorem processBlock_of_accepted {after : Chain} {isMainChain : Bool}
    (passed : maybeAcceptBlock rules (findPreviousCheckpoint rules state.chain).1
      block flags flags.fastAdd = (after, .ok isMainChain)) :
    processBlock rules state block flags adjustedTime keep =
      serveOrphans rules flags after state.orphans block isMainChain := by
  rw [processBlock_of_admissible admissible, takeIn, parentKnown, passed]
  rfl

end Admissible

theorem processBlock_of_noCheckpoints (noCheckpoints : rules.checkpoints = [])
    (isNew : blockExists chain (blockHashOf rules block) = false)
    (sane : checkBlockSanity rules block adjustedTime flags = .ok ())
    (parentKnown : blockExists chain block.msgHeader.blockHeader.prevBlock = true) :
    processBlock rules ⟨chain, []⟩ block flags adjustedTime keep =
      (⟨(maybeAcceptBlock rules chain block flags flags.fastAdd).1, []⟩,
        (maybeAcceptBlock rules chain block flags flags.fastAdd).2.map
          fun isMainChain => (isMainChain, false)) := by
  have admissible : Admissible rules ⟨chain, []⟩ block flags adjustedTime :=
    .of_noCheckpoints noCheckpoints isNew rfl sane
  have same : (findPreviousCheckpoint rules chain).1 = chain := by
    rw [findPreviousCheckpoint, noCheckpoints]
  cases ended : maybeAcceptBlock rules chain block flags flags.fastAdd with
  | mk after result =>
    cases result with
    | error error =>
      rw [processBlock_of_refused admissible parentKnown (same ▸ ended)]
      rfl
    | ok isMainChain =>
      rw [processBlock_of_accepted admissible parentKnown (same ▸ ended), serveOrphans_nil]
      rfl

end Process

end ModelOS.BlockChain
