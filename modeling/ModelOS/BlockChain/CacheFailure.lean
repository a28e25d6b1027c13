import ModelOS.BlockChain.CacheRefinement

namespace ModelOS.BlockChain

open Data Wire

/-! The database forgets a transaction that is not committed; the cache keeps what was
done to it on the way. -/

namespace UtxoCache

section Model

variable (memory : MemoryRules) (order : MapOrder) (now : Int) (cache : UtxoCache)
  (mode : FlushMode) (bestHash : Hash) (before after : DbTx → Except CacheError DbTx)

def flushBetween (dbTx : DbTx) : UtxoCache × Except CacheError DbTx :=
  match before dbTx with
  | .error error => (cache, .error error)
  | .ok dbTx =>
    match cache.flush memory order now mode bestHash dbTx with
    | (cache, .error error) => (cache, .error error)
    | (cache, .ok dbTx) => (cache, after dbTx)

def reached (dbTx : DbTx) : List OutPoint :=
  match before dbTx with
  | .error _ => []
  | .ok dbTx =>
    if cache.shouldFlush memory now mode bestHash then cache.handled order dbTx else []

/-- What the flush takes out of the cache before it fails. -/
def dropped (dbTx : DbTx) : List OutPoint :=
  (cache.reached memory order now mode bestHash before dbTx).filter fun outPoint =>
    ((cache.lines outPoint).bind (Lines.kept (cache.erases memory mode))).isNone

/-- A change of the outpoint that only the cache has. -/
def Unflushed (db : ChainDb) (outPoint : OutPoint) : Prop :=
  cache.logical db outPoint ≠ db.utxos outPoint

end Model

variable {memory : MemoryRules} {order : MapOrder} {now : Int} {cache : UtxoCache}
  {mode : FlushMode} {bestHash : Hash} {before after : DbTx → Except CacheError DbTx}
  {db : ChainDb} {budget : Option Nat}

theorem keepBack_nil (lines : Lines OutPoint SpentTxOut) (eraseCache : Bool) :
    lines.keepBack eraseCache [] = lines := by
  funext key
  exact if_neg List.not_mem_nil

theorem lines_flush (dbTx : DbTx) : (cache.flush memory order now mode bestHash dbTx).1.lines =
      cache.lines.keepBack (cache.erases memory mode)
        (if cache.shouldFlush memory now mode bestHash then cache.handled order dbTx
          else []) := by
  rw [flush]
  split
  · exact lines_writeCache
  · exact (keepBack_nil _ _).symm

theorem lines_flushBetween (dbTx : DbTx) :
    (cache.flushBetween memory order now mode bestHash before after dbTx).1.lines =
      cache.lines.keepBack (cache.erases memory mode)
        (cache.reached memory order now mode bestHash before dbTx) := by
  rw [flushBetween, reached]
  cases before dbTx with
  | error error => exact (keepBack_nil _ _).symm
  | ok opened =>
    dsimp only
    rw [← lines_flush opened]
    split
    · next flushed => rw [flushed]
    · next flushed => rw [flushed]

/-- Over the database as it was, the cache loses what the flush took out of it. -/
theorem overlay_flushBetween (dbTx : DbTx) (utxos : Ledger OutPoint SpentTxOut)
    (outPoint : OutPoint) :
    (cache.flushBetween memory order now mode bestHash before after dbTx).1.lines.overlay utxos
        outPoint =
      if outPoint ∈ cache.dropped memory order now mode bestHash before dbTx then utxos outPoint
      else cache.lines.overlay utxos outPoint := by
  rw [lines_flushBetween, Lines.overlay_keepBack]
  simp only [dropped, List.mem_filter, Option.isNone_iff_eq_none]

theorem dbUpdate_error {run : DbTx → Memory × Except CacheError DbTx}
    (failed : dbUpdate db budget run = (last, written, .error error)) :
    last = (run ⟨db, budget⟩).1 ∧ written = db := by
  rw [dbUpdate] at failed
  split at failed
  · next equation =>
    cases failed
    exact ⟨(congrArg Prod.fst equation).symm, rfl⟩
  · next equation =>
    split at failed
    · cases failed
      exact ⟨(congrArg Prod.fst equation).symm, rfl⟩
    · cases failed

end UtxoCache

structure ChainNode extends UtxoNode where
  tip : Hash

/-- What the node meets while it extends the main chain: whether the checks are skipped,
the outputs that the checks read and what they say, reads that fail, the result of the rule
warnings and of writing the block index, the writes of pruning and of the optional indexes,
and the budgets of the two transactions. -/
structure ExtendContext where
  fastAdd : Bool
  checkReads : List (List OutPoint)
  verdict : Except CacheError Unit
  readFails : OutPoint → Bool
  beforeUpdate : Except CacheError Unit
  pruneWrites : Nat
  needsFlush : Bool
  indexWrites : Nat
  order : UtxoCache.MapOrder
  now : Int
  budget : Option Nat
  flushBudget : Option Nat

def DbTx.writes : Nat → DbTx → Except CacheError DbTx
  | 0, dbTx => .ok dbTx
  | count + 1, dbTx => do
      let dbTx ← dbTx.perform id
      DbTx.writes count dbTx

namespace ExtendContext

open UtxoCache (flushBetween)

variable (memory : MemoryRules) (rules : TxRules) (blockHash : MsgBlock → Hash)
  (context : ExtendContext)

/-- The checks read outputs through the cache and work on a view of their own. -/
def readAll (db : ChainDb) : UtxoCache → List (List OutPoint) → UtxoCache × Except CacheError Unit
  | cache, [] => (cache, .ok ())
  | cache, outPoints :: rest =>
    match cache.fetchEntries memory db.utxos context.readFails outPoints with
    | (cache, .error error) => (cache, .error error)
    | (cache, .ok _) => readAll db cache rest

def checkConnectBlock (node : ChainNode) : UtxoCache × Except CacheError Unit :=
  if context.fastAdd then (node.cache, .ok ())
  else
    match context.readAll memory node.db node.cache context.checkReads with
    | (cache, .error error) => (cache, .error error)
    | (cache, .ok ()) => (cache, context.verdict)

def recordBlock (stacked : StackedBlock) (dbTx : DbTx) : Except CacheError DbTx := do
  let dbTx ← dbTx.perform fun db => { db with mainChain := db.mainChain ++ [stacked] }
  DbTx.writes (2 + context.indexWrites) dbTx

def insertBlock (cache : UtxoCache) (db : ChainDb) (stacked : StackedBlock)
    (stxos : List SpentTxOut) : UtxoCache × ChainDb × Except CacheError Unit :=
  if stxos.length ≠ countSpentOutputs stacked.block.transactions then
    (cache, db, .error (.chain (.assert ("connectBlock called with inconsistent " ++
      "spent transaction out information"))))
  else
    match context.beforeUpdate with
    | .error error => (cache, db, .error error)
    | .ok () =>
      dbUpdate db context.budget fun dbTx =>
        if context.needsFlush then
          cache.flushBetween memory context.order context.now .flushRequired
            (blockHash stacked.block) (DbTx.writes context.pruneWrites)
            (context.recordBlock stacked) dbTx
        else (cache, do
          let dbTx ← DbTx.writes context.pruneWrites dbTx
          context.recordBlock stacked dbTx)

/-- The cache is kept below its maximum after the tip was set. -/
def connectBlock (node : ChainNode) (stacked : StackedBlock) (stxos : List SpentTxOut) :
    ChainNode × Except CacheError Unit :=
  match context.insertBlock memory blockHash node.cache node.db stacked stxos with
  | (cache, db, .error error) => (⟨⟨cache, db⟩, node.tip⟩, .error error)
  | (cache, db, .ok ()) =>
    let (cache, db, result) := cache.flushUtxoCache memory context.order context.now
      .flushIfNeeded (blockHash stacked.block) db context.flushBudget
    (⟨⟨cache, db⟩, blockHash stacked.block⟩, result)

/-- `connectBestChain` for a block whose parent is the tip. -/
def connectBestChain (node : ChainNode) (stacked : StackedBlock) :
    ChainNode × Except CacheError Unit :=
  match context.checkConnectBlock memory node with
  | (cache, .error error) => (⟨⟨cache, node.db⟩, node.tip⟩, .error error)
  | (cache, .ok ()) =>
    match UtxoCache.connectTransactions memory node.db.utxos context.readFails rules
        stacked.height cache stacked.block.transactions with
    | (cache, .error error) => (⟨⟨cache, node.db⟩, node.tip⟩, .error error)
    | (cache, .ok stxos) =>
      context.connectBlock memory blockHash ⟨⟨cache, node.db⟩, node.tip⟩ stacked stxos

/-- What the flush for pruned blocks takes out of the cache. -/
def pruned (cache : UtxoCache) (db : ChainDb) (stacked : StackedBlock)
    (stxos : List SpentTxOut) : List OutPoint :=
  if stxos.length = countSpentOutputs stacked.block.transactions ∧
      context.beforeUpdate.isOk = true ∧ context.needsFlush = true then
    cache.dropped memory context.order context.now .flushRequired
      (blockHash stacked.block) (DbTx.writes context.pruneWrites) ⟨db, context.budget⟩
  else []

/-- Where an extension fails: in the checks, between inputs of the block, while the block is
recorded and some outpoints have left the cache, or after the tip was set. -/
inductive FailurePoint
  | checks
  | connecting (part : List (Transfer OutPoint SpentTxOut))
  | recording (pruned : List OutPoint)
  | flushing

def failurePoint (node : ChainNode) (stacked : StackedBlock) : FailurePoint :=
  match context.checkConnectBlock memory node with
  | (_, .error _) => .checks
  | (cache, .ok ()) =>
    match UtxoCache.connectTransactions memory node.db.utxos context.readFails rules
        stacked.height cache stacked.block.transactions with
    | (_, .error _) => .connecting (UtxoCache.connectedPart memory rules node.db.utxos
        context.readFails stacked.height cache stacked.block.transactions)
    | (connected, .ok stxos) =>
      match (context.insertBlock memory blockHash connected node.db stacked stxos).2.2 with
      | .error _ => .recording (context.pruned memory blockHash connected node.db stacked stxos)
      | .ok () => .flushing

/-- Between the checks and the tip a failure is harmless if no input that was connected was
unspent and no output that was connected is left, but for those that the flush for pruned blocks
took out again, and if it took out nothing else that was changed. -/
def FailurePoint.Harmless (node : ChainNode) (stacked : StackedBlock) : FailurePoint → Prop
  | checks => True
  | connecting part => (∀ outPoint ∈ Ledger.spentKeys part,
      node.cache.logical node.db outPoint = none) ∧ Ledger.leftKeys part = []
  | recording pruned =>
    let transfers := blockTransfers rules stacked.height stacked.block.transactions
    (∀ outPoint ∈ pruned, ¬ node.cache.Unflushed node.db outPoint) ∧
      (∀ outPoint ∈ Ledger.spentKeys transfers, outPoint ∉ pruned →
        node.cache.logical node.db outPoint = none) ∧
      ∀ outPoint ∈ Ledger.leftKeys transfers, outPoint ∈ pruned
  | flushing => False

variable {memory rules blockHash context}

theorem stands_readAll {cache : UtxoCache} {db : ChainDb}
    {ledger : Ledger OutPoint SpentTxOut} (stands : cache.Stands db.utxos ledger)
    (reads : List (List OutPoint)) :
    (context.readAll memory db cache reads).1.Stands db.utxos ledger := by
  induction reads generalizing cache with
  | nil => exact stands
  | cons outPoints rest ih =>
    have fetched := @UtxoCache.Stands.fetchEntries memory cache db.utxos context.readFails
      ledger stands outPoints
    rw [readAll]
    split
    · next failed =>
      rw [failed] at fetched
      exact fetched
    · next read =>
      rw [read] at fetched
      exact ih fetched

theorem stands_checkConnectBlock {node : ChainNode} {ledger : Ledger OutPoint SpentTxOut}
    (stands : node.cache.Stands node.db.utxos ledger) :
    (context.checkConnectBlock memory node).1.Stands node.db.utxos ledger := by
  have read := @stands_readAll memory context _ _ _ stands context.checkReads
  rw [checkConnectBlock]
  split
  · exact stands
  · split
    · next failed =>
      rw [failed] at read
      exact read
    · next done =>
      rw [done] at read
      exact read

theorem insertBlock_error
    (failed : context.insertBlock memory blockHash cache db stacked stxos =
      (last, written, .error error)) :
    written = db ∧ ∀ outPoint, last.lines.overlay db.utxos outPoint =
      if outPoint ∈ context.pruned memory blockHash cache db stacked stxos then
        db.utxos outPoint
      else cache.lines.overlay db.utxos outPoint := by
  rw [insertBlock] at failed
  split at failed
  · next inconsistent =>
    cases failed
    have none : context.pruned memory blockHash cache db stacked stxos = [] :=
      if_neg fun flushes => inconsistent flushes.1
    rw [none]
    exact ⟨rfl, fun _ => (if_neg List.not_mem_nil).symm⟩
  · next consistent =>
    split at failed
    · next warned =>
      cases failed
      have none : context.pruned memory blockHash cache db stacked stxos = [] :=
        if_neg (by simp [warned, Except.isOk, Except.toBool])
      rw [none]
      exact ⟨rfl, fun _ => (if_neg List.not_mem_nil).symm⟩
    · next silent =>
      obtain ⟨rfl, rfl⟩ := UtxoCache.dbUpdate_error failed
      refine ⟨rfl, fun outPoint => ?_⟩
      by_cases flushes : context.needsFlush = true
      · have taken : context.pruned memory blockHash cache written stacked stxos = _ :=
          if_pos ⟨not_not.mp consistent, by rw [silent]; rfl, flushes⟩
        rw [if_pos flushes, UtxoCache.overlay_flushBetween, taken]
      · have none : context.pruned memory blockHash cache written stacked stxos = [] :=
          if_neg fun pruned => flushes pruned.2.2
        rw [if_neg flushes, none]
        exact (if_neg List.not_mem_nil).symm

/-- What is left of a ledger whose keys are partly taken from a store. -/
theorem ite_applyAll_eq_iff {ledger utxos : Ledger OutPoint SpentTxOut}
    {transfers : List (Transfer OutPoint SpentTxOut)} {pruned : List OutPoint}
    (new : ∀ outPoint ∈ Ledger.createdKeys transfers, ledger outPoint = none) :
    (∀ outPoint, (if outPoint ∈ pruned then utxos outPoint
        else ledger.applyAll transfers outPoint) = ledger outPoint) ↔
      (∀ outPoint ∈ pruned, ¬ ledger outPoint ≠ utxos outPoint) ∧
        (∀ outPoint ∈ Ledger.spentKeys transfers, outPoint ∉ pruned → ledger outPoint = none) ∧
        ∀ outPoint ∈ Ledger.leftKeys transfers, outPoint ∈ pruned := by
  rw [← forall_and, ← forall_and]
  refine forall_congr' fun outPoint => ?_
  by_cases taken : outPoint ∈ pruned
  · simp [taken, eq_comm]
  · rw [if_neg taken, Ledger.applyAll_eq_self_iff (new outPoint)]
    simp only [taken, false_implies, true_and, not_false_eq_true, true_implies, imp_false]

theorem connectBestChain_keeps_iff (coherent : Lines.Coherent node.cache.lines node.db.utxos)
    (new : ∀ outPoint ∈ Ledger.createdKeys
        (blockTransfers rules stacked.height stacked.block.transactions),
      node.db.utxos outPoint = none ∧ node.cache.logical node.db outPoint = none)
    (distinct : blockHash stacked.block ≠ node.tip)
    (failed : context.connectBestChain memory rules blockHash node stacked = (last, .error error)) :
    (last.tip = node.tip ∧ last.cache.logical last.db = node.cache.logical node.db) ↔
      (context.failurePoint memory rules blockHash node stacked).Harmless rules node stacked := by
  have checked := @stands_checkConnectBlock memory context node (node.cache.logical node.db)
    ⟨coherent, rfl⟩
  rw [connectBestChain] at failed
  rw [failurePoint]
  split at failed
  · next cache problem refused =>
    cases failed
    rw [refused] at checked
    exact ⟨fun _ => trivial, fun _ => ⟨rfl, checked.overlay⟩⟩
  · next cache passed =>
    rw [passed] at checked
    have stands := @UtxoCache.Stands.connectTransactions memory rules cache node.db.utxos
      context.readFails _ stacked.height _ checked fun outPoint created => (new outPoint created).1
    split at failed
    · next connected problem broken =>
      cases failed
      rw [broken] at stands
      have known : ∀ outPoint ∈ Ledger.createdKeys (UtxoCache.connectedPart memory rules
          node.db.utxos context.readFails stacked.height cache stacked.block.transactions),
          node.cache.logical node.db outPoint = none := fun outPoint created =>
        (new outPoint (UtxoCache.createdKeys_connectedPart_subset created)).2
      have after : connected.logical node.db = _ := stands.overlay
      have unchanged := @ite_applyAll_eq_iff _ node.db.utxos _ [] known
      rw [eq_self_iff_true, true_and, after, funext_iff]
      simp only [FailurePoint.Harmless, List.eq_nil_iff_forall_not_mem]
      simpa using unchanged
    · next connected stxos done =>
      rw [UtxoCache.connectedPart_of_ok (congrArg Prod.snd done), done] at stands
      rw [connectBlock] at failed
      split at failed
      · next after written problem unrecorded =>
        cases failed
        obtain ⟨rfl, left⟩ := insertBlock_error unrecorded
        rw [stands.overlay] at left
        rw [eq_self_iff_true, true_and, UtxoCache.logical, funext_iff]
        simp only [left, unrecorded]
        exact ite_applyAll_eq_iff fun outPoint created => (new outPoint created).2
      · next after written recorded =>
        have moved : blockHash stacked.block = last.tip :=
          congrArg ChainNode.tip (congrArg Prod.fst failed)
        simp only [recorded]
        exact iff_of_false (fun kept => distinct (moved.trans kept.1)) id

end ExtendContext

namespace TwoBlocks

def opened : ChainDb :=
  ⟨view.entries.unspent, some (.zero 32), []⟩

def advanced : UtxoCache :=
  (UtxoCache.connectTransactions memory opened.utxos (fun _ => false) rules 2
    (newUtxoCache memory 262144000) [coinbase 2, payment]).1

def waiting : ChainNode :=
  ⟨⟨newUtxoCache memory 262144000, opened⟩, .zero 32⟩

def unrecorded : ExtendContext where
  fastAdd := false
  checkReads := [[⟨firstTxid, 0⟩]]
  verdict := .ok ()
  readFails _ := false
  beforeUpdate := .ok ()
  pruneWrites := 0
  needsFlush := false
  indexWrites := 0
  order := UtxoCache.MapOrder.asStored
  now := 0
  budget := some 0
  flushBudget := none

def refused : ExtendContext :=
  { unrecorded with verdict := .error .database }

/-- A cache that has read an output. -/
def read : UtxoCache :=
  ((newUtxoCache memory 262144000).fetchEntries memory opened.utxos (fun _ => false)
    [⟨firstTxid, 0⟩]).1

end TwoBlocks

end ModelOS.BlockChain
