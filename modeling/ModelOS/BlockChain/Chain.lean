import ModelOS.BlockChain.Validate

namespace ModelOS.BlockChain

open Data Wire ZkPow

/-! The block chain as a state machine. The database answers every request. -/

structure BlockStatus where
  valid : Bool
  validateFailed : Bool
  invalidAncestor : Bool
deriving DecidableEq

/-- `statusDataStored` only: nothing is known about the block's validity. -/
def statusDataStored : BlockStatus := ⟨false, false, false⟩

def BlockStatus.knownInvalid (status : BlockStatus) : Bool :=
  status.validateFailed || status.invalidAncestor

/-- An entry of the block index.  The last two fields are history: whether the
block's own `processBlock` call was a fast add, and the latest checkpoint the
chain had reached when the block was accepted. -/
structure IndexEntry where
  node : BlockNode
  status : BlockStatus
  fastAdded : Bool
  checkpoint : Option BlockNode

structure Chain where
  index : Hash → Option IndexEntry
  tip : BlockNode
  utxoCache : UtxoEntries
  spendJournal : Hash → Option (List SpentTxOut)
  checkpointNode : Option BlockNode
  nextCheckpoint : Option Checkpoint

def Chain.initial (rules : ChainRules) (genesis : MsgBlock) : Chain where
  index := Function.update (fun _ => none) ((BlockNode.genesis genesis).hash rules.sha256d)
    (some ⟨.genesis genesis, ⟨true, false, false⟩, false, none⟩)
  tip := .genesis genesis
  utxoCache := fun _ => none
  spendJournal := fun _ => none
  checkpointNode := none
  nextCheckpoint := none

section Index

variable (rules : ChainRules) (chain : Chain)

def blockHashOf (block : MsgBlock) : Hash :=
  block.msgHeader.blockHeader.blockHash rules.sha256d

def lookupNode (hash : Hash) : Option BlockNode :=
  (chain.index hash).map IndexEntry.node

def blockExists (hash : Hash) : Bool :=
  (chain.index hash).isSome

def nodeStatus (node : BlockNode) : BlockStatus :=
  ((chain.index (node.hash rules.sha256d)).map IndexEntry.status).getD statusDataStored

def setStatusFlags (node : BlockNode) (flags : BlockStatus → BlockStatus) : Chain :=
  let hash := node.hash rules.sha256d
  let entry := (chain.index hash).map fun entry =>
    { entry with status := flags entry.status }
  { chain with index := Function.update chain.index hash entry }

def addNode (block : MsgBlock) (entry : IndexEntry) : Chain :=
  { chain with
    index := Function.update chain.index (blockHashOf rules block) (some entry) }

def statusValid (status : BlockStatus) : BlockStatus :=
  { status with valid := true }

def statusValidateFailed (status : BlockStatus) : BlockStatus :=
  { status with validateFailed := true }

def statusInvalidAncestor (status : BlockStatus) : BlockStatus :=
  { status with invalidAncestor := true }

/-- The search through the checkpoints, from the last one on, for a block of the
best chain. -/
def searchCheckpoint : Option (BlockNode × Nat) :=
  rules.checkpoints.zipIdx.reverse.findSome? fun (checkpoint, position) =>
    match lookupNode chain checkpoint.hash with
    | none => none
    | some node =>
      if node ∈ chain.tip.ancestors then some (node, position) else none

def findPreviousCheckpoint : Chain × Except ChainError (Option BlockNode) :=
  match rules.checkpoints with
  | [] => (chain, .ok none)
  | first :: _ =>
    match chain.checkpointNode, chain.nextCheckpoint with
    | none, none =>
      match searchCheckpoint rules chain with
      | some (node, position) =>
        ({ chain with
            checkpointNode := some node
            nextCheckpoint := rules.checkpoints[position + 1]? },
          .ok (some node))
      | none => ({ chain with nextCheckpoint := some first }, .ok none)
    | some node, none => (chain, .ok (some node))
    | checkpointNode, some next =>
      if chain.tip.height < next.height then (chain, .ok checkpointNode)
      else
        match lookupNode chain next.hash with
        | none => (chain, .error (.assert
            ("findPreviousCheckpoint failed lookup of known good block node " ++
              hashString next.hash)))
        | some node =>
          let following :=
            (rules.checkpoints.zipIdx.reverse.find? fun (checkpoint, _) =>
              checkpoint.hash = next.hash).bind fun (_, position) =>
                rules.checkpoints[position + 1]?
          ({ chain with
              checkpointNode := some node
              nextCheckpoint := following }, .ok (some node))

end Index

section Tip

variable (rules : ChainRules) (chain : Chain)

def connectBlock (node : BlockNode) (stxos : List SpentTxOut) : Chain × Except ChainError Unit :=
  if node.header.prevBlock ≠ chain.tip.hash rules.sha256d then
    (chain, .error (.assert ("connectBlock must be called with a block " ++
      "that extends the main chain")))
  else if stxos.length ≠ countSpentOutputs node.block.transactions then
    (chain, .error (.assert ("connectBlock called with inconsistent " ++
      "spent transaction out information")))
  else
    ({ chain with
        tip := node
        spendJournal := Function.update chain.spendJournal
          (node.hash rules.sha256d) (some stxos) }, .ok ())

/-- Connect the transactions to the cache and then the block to the chain.  A
failed connection leaves the cache as far as it got. -/
def connectTip (node : BlockNode) : Chain × Except ChainError Unit :=
  match connectTransactions rules.toTxRules .cache chain.utxoCache node.height
      node.block.transactions with
  | (entries, .error error) => ({ chain with utxoCache := entries }, .error error)
  | (entries, .ok stxos) =>
    connectBlock rules { chain with utxoCache := entries } node stxos

def disconnectBlock (node : BlockNode) (view : UtxoViewpoint) : Chain × Except ChainError Unit :=
  if node.hash rules.sha256d ≠ chain.tip.hash rules.sha256d then
    (chain, .error (.assert ("disconnectBlock must be called with the " ++
      "block at the end of the main chain")))
  else
    match node with
    | .genesis _ => (chain, .error (.assert "the genesis block has no parent"))
    | .child parent _ =>
      ({ chain with
          tip := parent
          utxoCache := view.entries.flush
          spendJournal := Function.update chain.spendJournal
            (node.hash rules.sha256d) none }, .ok ())

def fetchSpendJournalEntry (node : BlockNode) : Except ChainError (List SpentTxOut) :=
  match chain.spendJournal (node.hash rules.sha256d) with
  | some stxos => .ok stxos
  | none =>
    let numStxos := countSpentOutputs node.block.transactions
    if numStxos ≠ 0 then
      .error (.assert ("mismatched spend journal serialization - " ++
        "no serialization for expected " ++ toString numStxos ++ " stxos"))
    else .ok []

end Tip

section Reorganize

variable (rules : ChainRules)

def findFork (chain : Chain) (node : BlockNode) : Option BlockNode :=
  node.ancestors.find? fun ancestor => ancestor ∈ chain.tip.ancestors

/-- The nodes from `node` down to the fork point, which is not included. -/
def nodesAbove (fork : Option BlockNode) (node : BlockNode) : List BlockNode :=
  node.ancestors.takeWhile fun ancestor => some ancestor ≠ fork

/-- The nodes to detach, from the tip on, and those to attach, from the fork
on.  A branch with an invalid block gives empty lists. -/
def getReorganizeNodes (chain : Chain) (parent node : BlockNode) :
    Chain × List BlockNode × List BlockNode :=
  if (nodeStatus rules chain parent).knownInvalid then
    (setStatusFlags rules chain node statusInvalidAncestor, [], [])
  else
    let fork := findFork chain node
    let branch := nodesAbove fork node
    let isInvalid := fun node => (nodeStatus rules chain node).knownInvalid
    if branch.any isInvalid then
      let collected := (branch.takeWhile fun node => !isInvalid node).reverse
      (collected.foldl (fun chain node =>
        setStatusFlags rules chain node statusInvalidAncestor) chain, [], [])
    else (chain, nodesAbove fork chain.tip, branch.reverse)

def detachNodes (chain : Chain) (view : UtxoViewpoint) :
    List BlockNode → Except ChainError (UtxoViewpoint × List (List SpentTxOut))
  | [] => .ok (view, [])
  | node :: rest => do
      let fetched := fetchInputUtxos rules.toTxRules view.entries node.block.transactions
        node.height
      let stxos ← fetchSpendJournalEntry rules chain node
      let view ← disconnectTransactions rules.toTxRules ⟨fetched, view.bestHash⟩ node.block
        node.height stxos
      let (view, journals) ← detachNodes chain view rest
      return (view, stxos :: journals)

/-- Check the attached blocks on a view.  A block that was found valid before is
only connected. -/
def attachNodes (chain : Chain) (view : UtxoViewpoint) :
    List BlockNode → Chain × Except ChainError Unit
  | [] => (chain, .ok ())
  | node :: rest =>
    if (nodeStatus rules chain node).valid then
      let fetched := fetchInputUtxos rules.toTxRules view.entries node.block.transactions
        node.height
      match connectTransactions rules.toTxRules .view fetched node.height
          node.block.transactions with
      | (_, .error error) => (chain, .error error)
      | (entries, .ok _) =>
        attachNodes chain ⟨entries, node.hash rules.sha256d⟩ rest
    else
      match checkConnectBlock rules node view with
      | .ok view =>
        attachNodes (setStatusFlags rules chain node statusValid) view rest
      | .error (.rule error) =>
        (rest.foldl (fun chain node =>
            setStatusFlags rules chain node statusInvalidAncestor)
          (setStatusFlags rules chain node statusValidateFailed),
          .error (.rule error))
      | .error (.assert description) => (chain, .error (.assert description))

def parentHash (node : BlockNode) : Option Hash :=
  match node with
  | .genesis _ => none
  | .child parent _ => some (parent.hash rules.sha256d)

def verifyReorganizationValidity (chain : Chain) (detach attach : List BlockNode) :
    Chain × Except ChainError (List (List SpentTxOut)) :=
  if detach = [] ∧ attach = [] then (chain, .ok [])
  else if detach.head?.any fun first =>
      first.hash rules.sha256d ≠ chain.tip.hash rules.sha256d then
    (chain, .error (.assert ("reorganize nodes to detach are " ++
      "not for the current best chain")))
  else if attach ≠ [] ∧ detach ≠ [] ∧ attach.head?.bind (parentHash rules) ≠
        detach.getLast?.bind (parentHash rules) then
    (chain, .error (.assert "reorganize nodes do not have the same fork point"))
  else
    match detachNodes rules chain ⟨chain.utxoCache, chain.tip.hash rules.sha256d⟩ detach with
    | .error error => (chain, .error error)
    | .ok (view, journals) =>
      match attachNodes rules chain view attach with
      | (chain, .error error) => (chain, .error error)
      | (chain, .ok ()) => (chain, .ok journals)

def disconnectNodes (chain : Chain) :
    List (BlockNode × List SpentTxOut) → Chain × Except ChainError Unit
  | [] => (chain, .ok ())
  | (node, stxos) :: rest =>
    let fetched := fetchInputUtxos rules.toTxRules chain.utxoCache node.block.transactions
      node.height
    match disconnectTransactions rules.toTxRules
        ⟨fetched, chain.tip.hash rules.sha256d⟩ node.block node.height stxos with
    | .error error => (chain, .error error)
    | .ok view =>
      match disconnectBlock rules chain node view with
      | (chain, .error error) => (chain, .error error)
      | (chain, .ok ()) => disconnectNodes chain rest

def connectNodes (chain : Chain) : List BlockNode → Chain × Except ChainError Unit
  | [] => (chain, .ok ())
  | node :: rest =>
    match connectTip rules chain node with
    | (chain, .error error) => (chain, .error error)
    | (chain, .ok ()) => connectNodes chain rest

def reorganizeChain (chain : Chain) (detach attach : List BlockNode) :
    Chain × Except ChainError Unit :=
  match verifyReorganizationValidity rules chain detach attach with
  | (chain, .error error) => (chain, .error error)
  | (chain, .ok journals) =>
    match disconnectNodes rules chain (detach.zip journals) with
    | (chain, .error error) => (chain, .error error)
    | (chain, .ok ()) => connectNodes rules chain attach

end Reorganize

section Accept

variable (rules : ChainRules)

/-- The code shifts by two: the advantage in work must reach a quarter of the
lesser block work. -/
def shouldChangeTip (currentWork proposedWork currentTipBlockWork
    proposedTipBlockWork : Int) : Bool :=
  if proposedWork ≤ currentWork then false
  else
    let diff := proposedWork - currentWork
    let minBlockWork :=
      if proposedTipBlockWork < currentTipBlockWork then proposedTipBlockWork
      else currentTipBlockWork
    minBlockWork >>> (2 : Nat) ≤ diff

def connectBestChain (chain : Chain) (parent : BlockNode) (block : MsgBlock)
    (flags : BehaviorFlags) : Chain × Except ChainError Bool :=
  let node := BlockNode.child parent block
  if node.header.prevBlock = chain.tip.hash rules.sha256d then
    let fastAdd := flags.fastAdd || (nodeStatus rules chain node).valid
    let (chain, checked) : Chain × Except ChainError Unit :=
      if fastAdd then (chain, .ok ())
      else
        match checkConnectBlock rules node ⟨chain.utxoCache, node.header.prevBlock⟩ with
        | .ok _ => (setStatusFlags rules chain node statusValid, .ok ())
        | .error (.rule error) =>
          (setStatusFlags rules chain node statusValidateFailed, .error (.rule error))
        | .error (.assert description) => (chain, .error (.assert description))
    match checked with
    | .error error => (chain, .error error)
    | .ok () =>
      match connectTip rules chain node with
      | (chain, .error (.rule error)) =>
        (setStatusFlags rules chain node statusValidateFailed, .error (.rule error))
      | (chain, .error (.assert description)) =>
        (chain, .error (.assert description))
      | (chain, .ok ()) =>
        (if fastAdd || !(nodeStatus rules chain node).valid then
          setStatusFlags rules chain node statusValid else chain, .ok true)
  else if !shouldChangeTip chain.tip.workSum node.workSum
      (calcWork chain.tip.header.bits) (calcWork node.header.bits) then
    (chain, .ok false)
  else
    let (chain, detach, attach) := getReorganizeNodes rules chain parent node
    match reorganizeChain rules chain detach attach with
    | (chain, .error error) => (chain, .error error)
    | (chain, .ok ()) => (chain, .ok true)

/-- The context check looks up the latest checkpoint only after the header rules
before it have passed. -/
def afterContextLookup (chain : Chain) (header : BlockHeader)
    (prevNode : BlockNode) (flags : BehaviorFlags) : Chain :=
  match checkHeaderBeforeCheckpoint rules header prevNode flags with
  | .ok () => (findPreviousCheckpoint rules chain).1
  | .error _ => chain

/-- `fastAdded` says whether the block's own call was a fast add; `flags` are
those of the call that is being served. -/
def maybeAcceptBlock (chain : Chain) (block : MsgBlock) (flags : BehaviorFlags)
    (fastAdded : Bool) : Chain × Except ChainError Bool :=
  let header := block.msgHeader.blockHeader
  match lookupNode chain header.prevBlock with
  | none => (chain, .error (.rule (ruleError .errPreviousBlockUnknown
      ("previous block " ++ hashString header.prevBlock ++ " is unknown"))))
  | some prevNode =>
    if (nodeStatus rules chain prevNode).knownInvalid then
      (chain, .error (.rule (ruleError .errInvalidAncestorBlock
        ("previous block " ++ hashString header.prevBlock ++ " is known to be invalid"))))
    else
      let previousCheckpoint := (findPreviousCheckpoint rules chain).2
      let chain := afterContextLookup rules chain header prevNode flags
      match checkBlockContext rules block prevNode flags previousCheckpoint with
      | .error error => (chain, .error error)
      | .ok () =>
        let entry : IndexEntry :=
          ⟨.child prevNode block, statusDataStored, fastAdded, previousCheckpoint.toOption.join⟩
        connectBestChain rules (addNode rules chain block entry) prevNode block flags

end Accept

/-- A pooled block, and whether its own call was a fast add. -/
structure OrphanBlock where
  block : MsgBlock
  fastAdded : Bool

structure ChainState where
  chain : Chain
  orphans : List OrphanBlock

section Process

variable (rules : ChainRules)

def removeOrphanBlock (orphans : List OrphanBlock) (orphan : OrphanBlock) : List OrphanBlock :=
  orphans.filter fun other =>
    blockHashOf rules other.block ≠ blockHashOf rules orphan.block

theorem length_removeOrphanBlock (member : orphan ∈ orphans) :
    (removeOrphanBlock rules orphans orphan).length < orphans.length := by
  refine List.length_filter_lt_length_iff_exists.mpr ⟨orphan, member, ?_⟩
  simp

def dependsOn (hash : Hash) (orphan : OrphanBlock) : Bool :=
  orphan.block.msgHeader.blockHeader.prevBlock = hash

/-- Accept the pooled blocks that depend on the queued hashes, with the flags of
the call that is being served. -/
def processOrphans (flags : BehaviorFlags) (chain : Chain)
    (orphans : List OrphanBlock) (queue : List Hash) : ChainState × Except ChainError Unit :=
  match queue with
  | [] => (⟨chain, orphans⟩, .ok ())
  | hash :: rest =>
    match _found : orphans.find? (dependsOn hash) with
    | none => processOrphans flags chain orphans rest
    | some orphan =>
      let remaining := removeOrphanBlock rules orphans orphan
      match maybeAcceptBlock rules chain orphan.block flags orphan.fastAdded with
      | (chain, .error error) => (⟨chain, remaining⟩, .error error)
      | (chain, .ok _) =>
        processOrphans flags chain remaining (hash :: rest ++ [blockHashOf rules orphan.block])
termination_by (orphans.length, queue.length)
decreasing_by
  · exact Prod.Lex.right _ (Nat.lt_succ_self _)
  · exact Prod.Lex.left _ _ (length_removeOrphanBlock rules (List.mem_of_find?_eq_some _found))

/-- Expired blocks and, in a full pool, the oldest one are dropped before the new
block is added; which blocks those are depends on the clock and on the order in
which a map is walked, so the caller says which ones are kept. -/
def addOrphanBlock (keep : OrphanBlock → Bool) (orphans : List OrphanBlock)
    (orphan : OrphanBlock) : List OrphanBlock :=
  orphans.filter keep ++ [orphan]

def checkPreviousCheckpoint (chain : Chain) (block : MsgBlock)
    (flags : BehaviorFlags) (checkpointNode : BlockNode) : Except ChainError Unit := do
  let header := block.msgHeader.blockHeader
  match lookupNode chain header.prevBlock with
  | none => pure ()
  | some prevNode =>
    require (¬ prevNode.height + 1 < checkpointNode.height) (.rule (ruleError .errForkTooOld
        ("block at height " ++ toString (prevNode.height + 1) ++
          " forks the main chain before the previous checkpoint at height " ++
          toString checkpointNode.height)))
  let checkpointTime := checkpointNode.header.timestamp
  require (¬ header.timestamp < checkpointTime)
    (.rule (ruleError .errCheckpointTimeTooOld
      ("block " ++ hashString (blockHashOf rules block) ++ " has timestamp " ++
        toString header.timestamp ++ " before last checkpoint timestamp " ++
        toString checkpointTime)))
  if flags.fastAdd then pure ()
  else
    let duration : Int := header.timestamp.toNat - checkpointTime.toNat
    let requiredTarget := compactToBig
      (rules.calcEasiestDifficulty checkpointNode.header.bits duration)
    let currentTarget := compactToBig header.bits
    require (¬ currentTarget > requiredTarget) (.rule (ruleError .errDifficultyTooLow
        ("block target difficulty of " ++ toString currentTarget ++
          " is too low when compared to the previous checkpoint")))

/-- The result says whether the block is on the main chain and whether it is an
orphan. -/
def processBlock (state : ChainState) (block : MsgBlock) (flags : BehaviorFlags)
    (adjustedTime : Nat) (keep : OrphanBlock → Bool) :
    ChainState × Except ChainError (Bool × Bool) :=
  let blockHash := blockHashOf rules block
  if blockExists state.chain blockHash then
    (state, .error (.rule (ruleError .errDuplicateBlock
      ("already have block " ++ hashString blockHash))))
  else if state.orphans.any fun orphan =>
      blockHashOf rules orphan.block = blockHash then
    (state, .error (.rule (ruleError .errDuplicateBlock
      ("already have block (orphan) " ++ hashString blockHash))))
  else
    match checkBlockSanity rules block adjustedTime flags with
    | .error error => (state, .error (.rule error))
    | .ok () =>
      let (chain, previousCheckpoint) := findPreviousCheckpoint rules state.chain
      let state := { state with chain }
      let checked := do
        match ← previousCheckpoint with
        | none => pure ()
        | some checkpointNode =>
          checkPreviousCheckpoint rules chain block flags checkpointNode
      match checked with
      | .error error => (state, .error error)
      | .ok () =>
        if !blockExists chain block.msgHeader.blockHeader.prevBlock then
          let orphans :=
            addOrphanBlock keep state.orphans ⟨block, flags.fastAdd⟩
          ({ state with orphans }, .ok (false, true))
        else
          match maybeAcceptBlock rules chain block flags flags.fastAdd with
          | (chain, .error error) => ({ state with chain }, .error error)
          | (chain, .ok isMainChain) =>
            match processOrphans rules flags chain state.orphans [blockHash] with
            | (state, .error error) => (state, .error error)
            | (state, .ok ()) => (state, .ok (isMainChain, false))

end Process

end ModelOS.BlockChain
