import ModelOS.BlockChain.AuxPow
import ModelOS.BlockChain.UtxoView

namespace ModelOS.BlockChain

open Data Wire ZkPow

/-! The checks without context, those on top of the parent and those against its unspent
outputs. -/

/-- A block and its ancestors.  The node of the source points to its parent; here
it contains it. -/
inductive BlockNode
  | genesis (block : MsgBlock)
  | child (parent : BlockNode) (block : MsgBlock)
deriving DecidableEq

namespace BlockNode

def block : BlockNode → MsgBlock
  | genesis block => block
  | child _ block => block

def header (node : BlockNode) : BlockHeader :=
  node.block.msgHeader.blockHeader

def hash (sha256d : Bytes → Hash) (node : BlockNode) : Hash :=
  node.header.blockHash sha256d

def height : BlockNode → Int32
  | genesis _ => 0
  | child parent _ => parent.height + 1

def workSum : BlockNode → Int
  | genesis block => calcWork block.msgHeader.blockHeader.bits
  | child parent block => parent.workSum + calcWork block.msgHeader.blockHeader.bits

def ancestors : BlockNode → List BlockNode
  | genesis block => [genesis block]
  | child parent block => child parent block :: parent.ancestors

end BlockNode

def medianTimeBlocks : Nat := 11

def calcPastMedianTime (node : BlockNode) : Nat :=
  let timestamps := (node.ancestors.take medianTimeBlocks).map fun node =>
    node.header.timestamp.toNat
  (timestamps.insertionSort (· ≤ ·)).getD (timestamps.length / 2) 0

structure Checkpoint where
  height : Int32
  hash : Hash
deriving DecidableEq

structure BehaviorFlags where
  fastAdd : Bool
  noPoWCheck : Bool
deriving DecidableEq

def BehaviorFlags.none : BehaviorFlags := ⟨false, false⟩

/-- The parameters of a network, the functions of other packages, and the rules
that concern one header or one transaction only. -/
structure ChainRules extends TxRules where
  sha256d : Bytes → Hash
  blake3 : Bytes → Hash
  verifier : ProofVerifier
  network : UInt32
  isSimNet : Bool
  genesisHash : Hash
  checkpoints : List Checkpoint
  coinbaseMaturity : Int32
  checkBlockHeaderSanity : MsgBlock → (adjustedTime : Nat) → (noPoWCheck : Bool) →
    Except RuleError Unit
  getBlockVsize : MsgBlock → Nat
  checkTransactionOutputs : MsgTx → Except RuleError Unit
  checkTransactionPrevOuts : MsgTx → Except RuleError Unit
  calcMerkleRoot : List MsgTx → Hash
  calcEasiestDifficulty : UInt32 → (duration : Int) → UInt32
  calcNextRequiredDifficulty : BlockNode → (newBlockTime : UInt32) → Except ChainError UInt32
  checkSerializedHeight : MsgTx → Int32 → Except RuleError Unit
  validateWitnessCommitment : MsgBlock → Except RuleError Unit
  checkInferenceGoTx : MsgTx → BlockNode → Except RuleError Int64
  checkInferenceBountySpends : MsgTx → BlockNode → UtxoEntries → Except RuleError Unit
  calcBlockSubsidy : Int32 → Int64
  sequenceLockActive : BlockNode → MsgTx → UtxoEntries → Except ChainError Bool
  checkBlockScripts : MsgBlock → UtxoEntries → Except RuleError Unit

def maxBlockVsize : Nat := 1000000

def maxGrain : Int64 := 21000000000000000

def minTimestampDeltaSeconds : Nat := 1

def lockTimeThreshold : UInt32 := 500000000

def isFinalizedTransaction (tx : MsgTx) (blockHeight : Int32) (blockTime : Nat) : Bool :=
  if tx.lockTime = 0 then true
  else
    let blockTimeOrHeight : Int :=
      if tx.lockTime < lockTimeThreshold then blockHeight.toInt else blockTime
    if (tx.lockTime.toNat : Int) < blockTimeOrHeight then true
    else tx.txIn.all fun txIn => txIn.sequence = 0xffffffff

section Sanity

variable (rules : ChainRules)

def checkTransactionSanity (tx : MsgTx) : Except RuleError Unit := do
  rules.checkTransactionOutputs tx
  require (tx.txIn.map TxIn.previousOutPoint).Nodup
    (ruleError .errDuplicateTxInputs "transaction contains duplicate inputs")
  rules.checkTransactionPrevOuts tx

/-- The first hash of a list that occurs earlier in it. -/
def firstDuplicate (hashes : List Hash) : Hash :=
  ((hashes.zipIdx.find? fun (hash, index) => (hashes.take index).contains hash).map
    Prod.fst).getD (FixedBytes.zero 32)

def checkBlockSanity (block : MsgBlock) (adjustedTime : Nat)
    (flags : BehaviorFlags) : Except RuleError Unit := do
  let header := block.msgHeader.blockHeader
  rules.checkBlockHeaderSanity block adjustedTime (flags.noPoWCheck || rules.isSimNet)
  checkBlockSanityAuxPow rules.blake3 rules.network header block.auxPow
  let numTx := block.transactions.length
  require (numTx ≠ 0) (ruleError .errNoTransactions "block does not contain any transactions")
  require (numTx ≤ maxBlockVsize) (ruleError .errBlockTooBig
    ("block contains too many transactions - got " ++ toString numTx ++
      ", max " ++ toString maxBlockVsize))
  require (rules.getBlockVsize block ≤ maxBlockVsize) (ruleError .errBlockTooBig
    ("block vsize is too big - got " ++ toString (rules.getBlockVsize block) ++
      ", max " ++ toString maxBlockVsize))
  require (block.transactions.head?.any isCoinBaseTx)
    (ruleError .errFirstTxNotCoinbase "first transaction in block is not a coinbase")
  let second := block.transactions.tail.findIdx? isCoinBaseTx
  require (second = none) (ruleError .errMultipleCoinbases
    ("block contains second coinbase at index " ++ toString (second.getD 0 + 1)))
  block.transactions.forM (checkTransactionSanity rules)
  let calcMerkleRoot := rules.calcMerkleRoot block.transactions
  require (header.merkleRoot = calcMerkleRoot) (ruleError .errBadMerkleRoot
    ("block merkle root is invalid - block header indicates " ++
      hashString header.merkleRoot ++ ", but calculated value is " ++ hashString calcMerkleRoot))
  let hashes := block.transactions.map rules.txHash
  require hashes.Nodup (ruleError .errDuplicateTx
    ("block contains duplicate transaction " ++ hashString (firstDuplicate hashes)))

end Sanity

section Context

variable (rules : ChainRules)

/-- A height without a checkpoint matches; among checkpoints at one height the
last one counts. -/
def verifyCheckpoint (height : Int32) (hash : Hash) : Bool :=
  match rules.checkpoints.reverse.find? fun checkpoint =>
      checkpoint.height = height with
  | none => true
  | some checkpoint => checkpoint.hash = hash

def checkHeaderBeforeCheckpoint (header : BlockHeader) (prevNode : BlockNode)
    (flags : BehaviorFlags) : Except ChainError Unit := do
  let blockHeight := prevNode.height + 1
  if flags.fastAdd then pure ()
  else
    let expectedDifficulty ←
      rules.calcNextRequiredDifficulty prevNode header.timestamp
    require (header.bits = expectedDifficulty) (.rule (ruleError .errUnexpectedDifficulty
        ("block difficulty of " ++ toString header.bits ++
          " is not the expected value of " ++ toString expectedDifficulty)))
    let prevTimestamp := prevNode.header.timestamp.toNat
    require (prevTimestamp + minTimestampDeltaSeconds ≤ header.timestamp.toNat)
      (.rule (ruleError .errTimeTooOld ("block timestamp of " ++ toString header.timestamp ++
          " must be at least " ++ toString minTimestampDeltaSeconds ++
          " seconds after previous block timestamp " ++ toString prevTimestamp)))
  require (verifyCheckpoint rules blockHeight (header.blockHash rules.sha256d))
    (.rule (ruleError .errBadCheckpoint ("block at height " ++ toString blockHeight ++
        " does not match checkpoint hash")))

def checkBlockHeaderContext (header : BlockHeader) (prevNode : BlockNode) (flags : BehaviorFlags)
    (previousCheckpoint : Except ChainError (Option BlockNode)) : Except ChainError Unit := do
  let blockHeight := prevNode.height + 1
  checkHeaderBeforeCheckpoint rules header prevNode flags
  let checkpointNode ← previousCheckpoint
  match checkpointNode with
  | none => pure ()
  | some checkpointNode =>
    require (¬ blockHeight < checkpointNode.height) (.rule (ruleError .errForkTooOld
        ("block at height " ++ toString blockHeight ++
          " forks the main chain before the previous checkpoint at height " ++
          toString checkpointNode.height)))

def checkBlockContext (block : MsgBlock) (prevNode : BlockNode) (flags : BehaviorFlags)
    (previousCheckpoint : Except ChainError (Option BlockNode)) : Except ChainError Unit := do
  let header := block.msgHeader.blockHeader
  checkBlockHeaderContext rules header prevNode flags previousCheckpoint
  if flags.fastAdd then pure ()
  else
    let blockTime := calcPastMedianTime prevNode
    let blockHeight := prevNode.height + 1
    describe .rule (checkBlockContextAuxPow rules.sha256d rules.verifier
      rules.network prevNode.height header block.auxPow)
    block.transactions.forM fun tx =>
      require (isFinalizedTransaction tx blockHeight blockTime)
        (ChainError.rule (ruleError .errUnfinalizedTx ("block contains unfinalized transaction " ++
            hashString (rules.txHash tx))))
    -- Only reached with the coinbase that the sanity check asked for.
    match block.transactions.head? with
    | none => pure ()
    | some coinbaseTx =>
      describe .rule (rules.checkSerializedHeight coinbaseTx blockHeight)
    describe .rule (rules.validateWitnessCommitment block)
    require (rules.getBlockVsize block ≤ maxBlockVsize) (.rule (ruleError .errBlockTooBig
        ("block vsize " ++ toString (rules.getBlockVsize block) ++
          " exceeds maximum " ++ toString maxBlockVsize)))

end Context

section Connect

variable (rules : ChainRules)

def lookupUnspent (entries : UtxoEntries) (outPoint : OutPoint) : Option UtxoEntry :=
  (entries outPoint).filter fun entry => !entry.spent

def checkBIP0030 (block : MsgBlock) (entries : UtxoEntries) : Except ChainError Unit :=
  (block.transactions.flatMap fun tx =>
      (txOutputs rules.toTxRules tx).map Prod.fst).forM fun outPoint =>
    match lookupUnspent entries outPoint with
    | none => pure ()
    | some utxo => .error (.rule (ruleError .errOverwriteTx
        ("tried to overwrite transaction " ++ hashString outPoint.hash ++
          " at block height " ++ toString utxo.height ++ " that is not fully spent")))

def checkTransactionInput (tx : MsgTx) (txHeight : Int32) (entries : UtxoEntries)
    (totalGrainIn : Int64) (input : TxIn × Nat) : Except RuleError Int64 := do
  let outPoint := input.1.previousOutPoint
  let utxo ← present (lookupUnspent entries outPoint)
    (ruleError .errMissingTxOut
      ("output " ++ outPointString outPoint ++ " referenced from transaction " ++
        hashString (rules.txHash tx) ++ ":" ++ toString input.2 ++
        " either does not exist or has already been spent"))
  require (utxo.isCoinBase → ¬ txHeight - utxo.height < rules.coinbaseMaturity)
    (ruleError .errImmatureSpend
      ("tried to spend coinbase transaction output " ++ outPointString outPoint ++
        " from height " ++ toString utxo.height ++ " at height " ++
        toString txHeight ++ " before required maturity of " ++
        toString rules.coinbaseMaturity ++ " blocks"))
  require (¬ utxo.amount < 0) (ruleError .errBadTxOutValue
    ("transaction output has negative value of " ++ toString utxo.amount))
  require (¬ utxo.amount > maxGrain) (ruleError .errBadTxOutValue
    ("transaction output value is higher than max allowed value: " ++
      toString utxo.amount ++ " > " ++ toString maxGrain ++ " "))
  let total := totalGrainIn + utxo.amount
  require (¬ (total < totalGrainIn ∨ total > maxGrain)) (ruleError .errBadTxOutValue
      ("total value of all transaction inputs is " ++ toString total ++
        " which is higher than max allowed value of " ++ toString maxGrain))
  return total

def checkTransactionInputsWithIssuance (tx : MsgTx) (txHeight : Int32)
    (entries : UtxoEntries) (issued : Int64) : Except RuleError Int64 :=
  if isCoinBaseTx tx then .ok 0
  else do
    let totalGrainIn ← tx.txIn.zipIdx.foldlM
      (checkTransactionInput rules tx txHeight entries) 0
    let totalGrainOut := (tx.txOut.map TxOut.value).foldl (· + ·) 0
    require (¬ issued < 0) (ruleError .errBadTxOutValue "negative issuance allowance")
    let available := if 0 < issued then totalGrainIn + issued else totalGrainIn
    require (0 < issued → ¬ (available < totalGrainIn ∨ available > maxGrain))
      (ruleError .errBadTxOutValue
        ("total value of inputs plus issuance overflows the maximum allowed " ++ "value"))
    require (¬ available < totalGrainOut) (ruleError .errSpendTooHigh
      ("total value of all transaction inputs for transaction " ++
        hashString (rules.txHash tx) ++ " is " ++ toString available ++
        " which is less than the amount spent of " ++ toString totalGrainOut))
    return available - totalGrainOut

/-- One round of the transaction loop of `checkConnectBlock`: the entries and
the fees so far. -/
def checkConnectTransaction (node : BlockNode) (state : UtxoEntries × Int64)
    (tx : MsgTx) : Except ChainError (UtxoEntries × Int64) := do
  let issued ← describe .rule (rules.checkInferenceGoTx tx node)
  let txFee ← describe .rule
    (checkTransactionInputsWithIssuance rules tx node.height state.1 issued)
  describe .rule (rules.checkInferenceBountySpends tx node state.1)
  let totalFees := state.2 + txFee
  require (¬ totalFees < state.2) (.rule (ruleError .errBadFees
    "total fees for block overflows accumulator"))
  let (entries, stxos) :=
    connectTransaction rules.toTxRules .view state.1 tx node.height
  let _ ← stxos
  return (entries, totalFees)

def latestCheckpoint : Option Checkpoint :=
  rules.checkpoints.getLast?

def runsScripts (node : BlockNode) : Bool :=
  match latestCheckpoint rules with
  | none => true
  | some checkpoint => ¬ node.height ≤ checkpoint.height

def checkConnectBlock (node : BlockNode) (view : UtxoViewpoint) :
    Except ChainError UtxoViewpoint := do
  let hash := node.hash rules.sha256d
  require (hash ≠ rules.genesisHash) (.rule (ruleError .errMissingTxOut
    "the coinbase for the genesis block is not spendable"))
  require (view.bestHash = node.header.prevBlock) (.assert
    ("inconsistent view when checking block connection: best hash is " ++
      hashString view.bestHash ++ " instead of expected " ++ hashString node.header.prevBlock))
  checkBIP0030 rules node.block view.entries
  let fetched := fetchInputUtxos rules.toTxRules view.entries node.block.transactions node.height
  let (entries, totalFees) ← node.block.transactions.foldlM
    (checkConnectTransaction rules node) (fetched, 0)
  let totalGrainOut := ((node.block.transactions.head?.map MsgTx.txOut).getD
    []).foldl (fun total txOut => total + txOut.value) 0
  let expectedGrainOut := rules.calcBlockSubsidy node.height + totalFees
  require (¬ totalGrainOut > expectedGrainOut) (.rule (ruleError .errBadCoinbaseValue
      ("coinbase transaction for block pays " ++ toString totalGrainOut ++
        " which is more than expected value of " ++ toString expectedGrainOut)))
  node.block.transactions.forM fun tx => do
    let active ← rules.sequenceLockActive node tx entries
    require active (ChainError.rule (ruleError .errUnfinalizedTx
      "block contains transaction whose input sequence locks are not met"))
  (if runsScripts rules node then
      describe .rule (rules.checkBlockScripts node.block entries)
    else .ok ())
  return ⟨entries, hash⟩

end Connect

section Consequences

variable {rules : ChainRules}

structure SaneTransactions (rules : ChainRules) (transactions : List MsgTx) : Prop where
  coinbaseFirst : ∃ coinbase others, transactions = coinbase :: others ∧
    isCoinBaseTx coinbase = true ∧ ∀ tx ∈ others, isCoinBaseTx tx = false
  inputs : ∀ tx ∈ transactions, (tx.txIn.map TxIn.previousOutPoint).Nodup
  hashes : (transactions.map rules.txHash).Nodup

theorem sane_of_checkBlockSanity
    (checked : checkBlockSanity rules block adjustedTime flags = .ok ()) :
    SaneTransactions rules block.transactions := by
  simp only [checkBlockSanity, checkTransactionSanity, bind_eq_ok, require_eq_ok,
    forM_eq_ok] at checked
  obtain ⟨_, _, _, _, _, _, _, _, _, _, _, first, _, second, _, inputs, _, _, hashes⟩ := checked
  refine ⟨?_, ?_, hashes⟩
  · cases transactions : block.transactions with
    | nil =>
      rw [transactions] at first
      cases first
    | cons coinbase others =>
      rw [transactions] at first second
      refine ⟨coinbase, others, rfl, first, ?_⟩
      intro tx member
      exact List.findIdx?_eq_none_iff.mp second tx member
  · intro tx member
    obtain ⟨_, _, _, nodup, _⟩ := inputs tx member
    exact nodup

variable {entries : UtxoEntries} {outPoint : OutPoint} {tx : MsgTx} {node : BlockNode}
  {view : UtxoViewpoint}

theorem lookupUnspent_eq_none (absent : lookupUnspent entries outPoint = none) :
    entries.unspent outPoint = none := by
  simp only [lookupUnspent, UtxoEntries.unspent] at absent ⊢
  cases held : entries outPoint with
  | none => rfl
  | some entry =>
    rw [held] at absent
    cases spent : entry.spent with
    | true => simp [UtxoEntry.unspent, spent]
    | false => simp [Option.filter, spent] at absent

theorem lookupUnspent_eq_some
    (found : lookupUnspent entries outPoint = some entry) :
    entries.unspent outPoint = some entry.toSpentTxOut := by
  obtain ⟨held, unspent⟩ := Option.filter_eq_some_iff.mp found
  simp only [UtxoEntries.unspent, held, Option.bind_some, UtxoEntry.unspent]
  rw [if_neg (by simpa using unspent)]

theorem unspent_of_checkBIP0030
    (checked : checkBIP0030 rules block entries = .ok ()) (member : tx ∈ block.transactions) :
    ∀ outPoint ∈ (txOutputs rules.toTxRules tx).map Prod.fst, entries.unspent outPoint = none := by
  intro outPoint created
  have allowed := forM_eq_ok.mp checked outPoint (List.mem_flatMap.mpr ⟨tx, member, created⟩)
  split at allowed
  · next absent => exact lookupUnspent_eq_none absent
  · cases allowed

theorem available_of_checkTransactionInputs
    (notCoinBase : isCoinBaseTx tx = false)
    (checked : checkTransactionInputsWithIssuance rules tx txHeight entries issued = .ok fee) :
    ∀ outPoint ∈ tx.txIn.map TxIn.previousOutPoint,
      ∃ coin, entries.unspent outPoint = some coin := by
  simp only [checkTransactionInputsWithIssuance, notCoinBase, Bool.false_eq_true,
    if_false, bind_eq_ok] at checked
  obtain ⟨total, summed, _⟩ := checked
  intro outPoint member
  obtain ⟨txIn, position, rfl⟩ := List.mem_map.mp member
  obtain ⟨index, bound, rfl⟩ := List.getElem_of_mem position
  obtain ⟨before, after, input⟩ := mem_of_foldlM_eq_ok summed
    (tx.txIn[index], index) (List.mem_zipIdx_iff_getElem?.mpr (by simp))
  simp only [checkTransactionInput, bind_eq_ok, present_eq_ok] at input
  obtain ⟨utxo, found, _⟩ := input
  exact ⟨utxo.toSpentTxOut, lookupUnspent_eq_some found⟩

theorem hash_of_mem_created
    (created : outPoint ∈ (txTransfer rules.toTxRules blockHeight tx).created.map Prod.fst) :
    outPoint.hash = rules.txHash tx ∧ outPoint ∈ (txOutputs rules.toTxRules tx).map Prod.fst := by
  simp only [txTransfer, spendableOutputs, List.map_map] at created
  obtain ⟨output, kept, rfl⟩ := List.mem_map.mp created
  have member := List.mem_of_mem_filter kept
  refine ⟨?_, List.mem_map_of_mem member⟩
  obtain ⟨indexed, _, rfl⟩ := List.mem_map.mp member
  rfl

variable {transactions : List MsgTx} {fees total : Int64}

theorem unspent_of_checkConnectTransaction
    (checked : checkConnectTransaction rules node (entries, fees) tx = .ok (after, total)) :
    after.unspent = entries.unspent.apply (txTransfer rules.toTxRules node.height tx) := by
  simp only [checkConnectTransaction, bind_eq_ok, pure_eq_ok, Prod.mk.injEq] at checked
  obtain ⟨_, _, _, _, _, _, _, _, stxos, connected, moved, _⟩ := checked
  exact unspent_connectTransaction (Prod.ext moved connected)

theorem available_of_checkConnectTransaction
    (checked : checkConnectTransaction rules node (entries, fees) tx = .ok next) :
    ∀ outPoint ∈ (txTransfer rules.toTxRules node.height tx).spent,
      ∃ coin, entries.unspent outPoint = some coin := by
  simp only [checkConnectTransaction, bind_eq_ok, describe_eq_ok] at checked
  obtain ⟨issued, _, fee, spends, _⟩ := checked
  cases isCoinBase : isCoinBaseTx tx with
  | true => simp [txTransfer, isCoinBase]
  | false =>
    simp only [txTransfer, isCoinBase, Bool.false_eq_true, if_false]
    exact available_of_checkTransactionInputs isCoinBase spends

theorem unspent_of_checkConnectTransactions
    (checked : transactions.foldlM (checkConnectTransaction rules node)
      (entries, fees) = .ok (after, total)) :
    after.unspent = entries.unspent.applyAll
      (blockTransfers rules.toTxRules node.height transactions) := by
  induction transactions generalizing entries fees with
  | nil =>
    cases checked
    rfl
  | cons tx rest ih =>
    rw [List.foldlM_cons, bind_eq_ok] at checked
    obtain ⟨⟨middle, middleFees⟩, first, others⟩ := checked
    rw [ih others, unspent_of_checkConnectTransaction first]
    rfl

theorem hash_of_mem_txOutputs
    (output : outPoint ∈ (txOutputs rules.toTxRules tx).map Prod.fst) :
    outPoint.hash = rules.txHash tx := by
  obtain ⟨⟨_, txOut⟩, listed, rfl⟩ := List.mem_map.mp output
  obtain ⟨indexed, _, same⟩ := List.mem_map.mp listed
  exact congrArg (fun output => output.1.hash) same.symm

/-- The view may hold coins that the block is still to create.  Where no transaction spends
such a coin, what passes on the view connects to the ledger. -/
theorem connects_of_checkConnectTransactions {ledger : Ledger OutPoint SpentTxOut}
    (inputs : ∀ tx ∈ transactions, (tx.txIn.map TxIn.previousOutPoint).Nodup)
    (hashes : (transactions.map rules.txHash).Nodup)
    (inOrder : Ledger.InOrder (blockTransfers rules.toTxRules node.height transactions))
    (agree : Ledger.AgreeOff
      (Ledger.createdKeys (blockTransfers rules.toTxRules node.height transactions))
      entries.unspent ledger)
    (fresh : ∀ tx ∈ transactions, ∀ outPoint ∈ (txOutputs rules.toTxRules tx).map Prod.fst,
        ledger outPoint = none)
    (checked : transactions.foldlM (checkConnectTransaction rules node)
      (entries, fees) = .ok (after, total)) :
    Ledger.ConnectsAll (blockTransfers rules.toTxRules node.height transactions) ledger := by
  induction transactions generalizing entries fees ledger with
  | nil => trivial
  | cons tx rest ih =>
    rw [List.foldlM_cons, bind_eq_ok] at checked
    obtain ⟨⟨middle, middleFees⟩, first, others⟩ := checked
    obtain ⟨distinct, hashes⟩ := List.nodup_cons.mp hashes
    refine ⟨⟨?_, ?_, ?_⟩, ?_⟩
    · simp only [txTransfer]
      split
      · exact List.nodup_nil
      · exact inputs tx (.head _)
    · intro outPoint spent
      rw [← agree outPoint (inOrder.1 outPoint spent)]
      exact available_of_checkConnectTransaction first outPoint spent
    · intro outPoint created
      rw [Ledger.spend_apply, fresh tx (.head _) outPoint
        (hash_of_mem_created created).2, ite_self]
    · refine @ih middle middleFees _ (fun tx member => inputs tx (.tail _ member)) hashes
        inOrder.2 ?_ ?_ others
      · rw [unspent_of_checkConnectTransaction first]
        exact agree.apply
      · intro later member outPoint output
        refine Ledger.apply_eq_none (fresh later (.tail _ member) outPoint output) ?_
        intro created
        exact distinct (List.mem_map.mpr ⟨later, member,
          (hash_of_mem_txOutputs output).symm.trans (hash_of_mem_created created).1⟩)

theorem unspent_of_checkConnectBlock (checked : checkConnectBlock rules node view = .ok after) :
    after.entries.unspent = view.entries.unspent.applyAll
        (blockTransfers rules.toTxRules node.height node.block.transactions) ∧
      after.bestHash = node.hash rules.sha256d := by
  simp only [checkConnectBlock, bind_eq_ok, require_eq_ok, pure_eq_ok] at checked
  obtain ⟨_, _, _, _, _, _, ⟨entries, fees⟩, connected, _, _, _, _, _, _, rfl⟩ := checked
  refine ⟨?_, rfl⟩
  exact (unspent_of_checkConnectTransactions connected).trans
    agreeOff_fetchInputUtxos.applyAll_eq

theorem connects_of_checkConnectBlock
    (sane : SaneTransactions rules node.block.transactions)
    (inOrder : Ledger.InOrder
      (blockTransfers rules.toTxRules node.height node.block.transactions))
    (checked : checkConnectBlock rules node view = .ok after) : Ledger.ConnectsAll
      (blockTransfers rules.toTxRules node.height node.block.transactions)
      view.entries.unspent := by
  simp only [checkConnectBlock, bind_eq_ok, require_eq_ok, pure_eq_ok] at checked
  obtain ⟨_, _, _, _, _, overwrites, ⟨entries, fees⟩, connected, _⟩ := checked
  exact connects_of_checkConnectTransactions sane.inputs sane.hashes inOrder
    agreeOff_fetchInputUtxos
    (fun tx member => unspent_of_checkBIP0030 overwrites member) connected

theorem checkConnectBlock_eq_ok
    (notGenesis : node.hash rules.sha256d ≠ rules.genesisHash)
    (best : view.bestHash = node.header.prevBlock)
    (overwrites : checkBIP0030 rules node.block view.entries = .ok ())
    (looped : node.block.transactions.foldlM (checkConnectTransaction rules node)
      (fetchInputUtxos rules.toTxRules view.entries node.block.transactions node.height, 0) =
        .ok (entries, fees))
    (reward : ¬ ((node.block.transactions.head?.map MsgTx.txOut).getD []).foldl
      (fun total txOut => total + txOut.value) 0 > rules.calcBlockSubsidy node.height + fees)
    (locks : ∀ tx ∈ node.block.transactions, rules.sequenceLockActive node tx entries = .ok true)
    (scripts : rules.checkBlockScripts node.block entries = .ok ()) :
    checkConnectBlock rules node view = .ok ⟨entries, node.hash rules.sha256d⟩ := by
  simp only [checkConnectBlock, bind_eq_ok, require_eq_ok]
  refine ⟨(), notGenesis, (), best, (), overwrites, (entries, fees), looped, (),
    reward, (), ?_, (), ?_, rfl⟩
  · rw [forM_eq_ok]
    intro tx member
    rw [locks tx member]
    rfl
  · rw [scripts]
    split
    · rfl
    · rfl

theorem checkBIP0030_eq_ok
    (fresh : ∀ tx ∈ block.transactions, ∀ output ∈ txOutputs rules.toTxRules tx,
      entries.unspent output.1 = none) : checkBIP0030 rules block entries = .ok () := by
  simp only [checkBIP0030, forM_eq_ok]
  intro outPoint member
  obtain ⟨tx, listed, isOutput⟩ := List.mem_flatMap.mp member
  obtain ⟨output, created, rfl⟩ := List.mem_map.mp isOutput
  cases looked : lookupUnspent entries output.1 with
  | none => rfl
  | some entry =>
    have held := lookupUnspent_eq_some looked
    rw [fresh tx listed output created] at held
    cases held

end Consequences

end ModelOS.BlockChain
