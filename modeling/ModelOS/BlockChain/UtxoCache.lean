import ModelOS.BlockChain.MapSlice
import ModelOS.BlockChain.Undo
import ModelOS.Data.WriteBack

namespace ModelOS.BlockChain

open Data Wire ZkPow

/-! A write-back cache of the database's unspent outputs, advanced by the blocks that
are connected. -/

abbrev CacheEntry := Line SpentTxOut

abbrev EntryMap := AList fun _ : OutPoint => Option CacheEntry

abbrev CachedEntries := MapSlice OutPoint (Option CacheEntry)

inductive CacheError
  | chain (error : ChainError)
  | database
  | interruptRequested
deriving DecidableEq, Repr

structure MemoryRules where
  calculateRoughMapSize : Int → UInt64
  calculateMinEntries : UInt64 → Int
  scriptCapacity : Bytes → UInt64

def baseEntrySize : UInt64 := 40

def memoryUsage (memory : MemoryRules) : Option CacheEntry → UInt64
  | none => 0
  | some entry => baseEntrySize + memory.scriptCapacity entry.coin.pkScript

structure UtxoCache where
  maxTotalMemoryUsage : UInt64
  cachedEntries : CachedEntries
  totalEntryMemory : UInt64
  lastFlushHash : Hash
  lastFlushTime : Int

def newUtxoCache (memory : MemoryRules) (maxTotalMemoryUsage : UInt64) : UtxoCache where
  maxTotalMemoryUsage
  cachedEntries := MapSlice.ofSize (memory.calculateMinEntries maxTotalMemoryUsage - 1)
  totalEntryMemory := 0
  lastFlushHash := FixedBytes.zero 32
  lastFlushTime := 0

structure ChainDb where
  utxos : Ledger OutPoint SpentTxOut
  utxoStateConsistency : Option Hash
  mainChain : List StackedBlock

/-- A database transaction.  The budget is the number of writes that still succeed, if
there is a limit. -/
structure DbTx where
  pending : ChainDb
  budget : Option Nat

def DbTx.perform (change : ChainDb → ChainDb) (dbTx : DbTx) : Except CacheError DbTx :=
  match dbTx.budget with
  | none => .ok ⟨change dbTx.pending, none⟩
  | some 0 => .error .database
  | some (left + 1) => .ok ⟨change dbTx.pending, some left⟩

def dbDeleteUtxoEntry (outPoint : OutPoint) : DbTx → Except CacheError DbTx :=
  DbTx.perform fun db => { db with utxos := Function.update db.utxos outPoint none }

def dbPutUtxoEntry (outPoint : OutPoint) (coin : SpentTxOut) : DbTx → Except CacheError DbTx :=
  DbTx.perform fun db => { db with utxos := Function.update db.utxos outPoint (some coin) }

def dbPutUtxoStateConsistency (hash : Hash) : DbTx → Except CacheError DbTx :=
  DbTx.perform fun db => { db with utxoStateConsistency := some hash }

/-- Run a transaction and commit it.  The database stays as it is when the transaction or
the commit fails; what the transaction did in memory stays. -/
def dbUpdate {Memory : Type} (db : ChainDb) (budget : Option Nat)
    (run : DbTx → Memory × Except CacheError DbTx) : Memory × ChainDb × Except CacheError Unit :=
  match run ⟨db, budget⟩ with
  | (memory, .error error) => (memory, db, .error error)
  | (memory, .ok dbTx) =>
    match dbTx.perform id with
    | .error error => (memory, db, .error error)
    | .ok committed => (memory, committed.pending, .ok ())

namespace UtxoCache

section Model

variable (memory : MemoryRules) (cache : UtxoCache)

def totalMemoryUsage : UInt64 :=
  cache.cachedEntries.size memory.calculateRoughMapSize + cache.totalEntryMemory

def newMapSize : Int :=
  memory.calculateMinEntries (cache.maxTotalMemoryUsage - cache.totalEntryMemory -
    cache.cachedEntries.size memory.calculateRoughMapSize) - 1

def put (outPoint : OutPoint) (entry : Option CacheEntry) : UtxoCache :=
  { cache with
    cachedEntries := cache.cachedEntries.put (cache.newMapSize memory) outPoint entry
    totalEntryMemory := cache.totalEntryMemory + memoryUsage memory entry }

variable (utxos : Ledger OutPoint SpentTxOut) (readFails : OutPoint → Bool)

def dbFetchUtxoEntry (outPoint : OutPoint) : Except CacheError (Option CacheEntry) :=
  if readFails outPoint then .error .database
  else .ok ((utxos outPoint).map Line.clean)

/-- A missing entry is cached as well, to save the next lookup. -/
def fetchEntries (outPoints : List OutPoint) :
    UtxoCache × Except CacheError (List (Option CacheEntry)) :=
  let missing := outPoints.filter fun outPoint =>
    (cache.cachedEntries.get outPoint).isNone
  match missing.mapM (dbFetchUtxoEntry utxos readFails) with
  | .error error => (cache, .error error)
  | .ok dbEntries =>
    ((missing.zip dbEntries).foldl
      (fun cache (outPoint, entry) => cache.put memory outPoint entry) cache,
    .ok (outPoints.map fun outPoint =>
      (cache.cachedEntries.get outPoint).getD ((utxos outPoint).map Line.clean)))

/-- A fresh entry is forgotten when it is spent; any other one stays, marked as spent in
place. -/
def addTxIn (txIn : TxIn) : UtxoCache × Except CacheError SpentTxOut :=
  let outPoint := txIn.previousOutPoint
  match cache.fetchEntries memory utxos readFails [outPoint] with
  | (cache, .error error) => (cache, .error error)
  | (cache, .ok [some entry]) =>
    if entry.fresh then
      ({ cache with
          cachedEntries := cache.cachedEntries.delete outPoint
          totalEntryMemory := cache.totalEntryMemory - memoryUsage memory (some entry) },
        .ok entry.coin)
    else
      ({ cache with
          cachedEntries := cache.cachedEntries.put (cache.newMapSize memory) outPoint
            (some entry.spend) },
        .ok entry.coin)
  | (cache, .ok _) =>
    (cache, .error (.chain (.assert ("missing input " ++ outPointString outPoint))))

def addTxIns : UtxoCache → List TxIn → UtxoCache × Except CacheError (List SpentTxOut)
  | cache, [] => (cache, .ok [])
  | cache, txIn :: rest =>
    match cache.addTxIn memory utxos readFails txIn with
    | (cache, .error error) => (cache, .error error)
    | (cache, .ok stxo) =>
      let (cache, stxos) := addTxIns cache rest
      (cache, stxos.map (stxo :: ·))

variable (rules : TxRules)

def addTxOuts (tx : MsgTx) (blockHeight : Int32) : UtxoCache :=
  (spendableOutputs rules tx).foldl (fun cache (outPoint, txOut) =>
    cache.put memory outPoint (some (Line.created (newCoin tx blockHeight txOut)))) cache

def connectTransaction (tx : MsgTx) (blockHeight : Int32) :
    UtxoCache × Except CacheError (List SpentTxOut) :=
  if isCoinBaseTx tx then
    (cache.addTxOuts memory rules tx blockHeight, .ok [])
  else
    match addTxIns memory utxos readFails cache tx.txIn with
    | (cache, .error error) => (cache, .error error)
    | (cache, .ok stxos) => (cache.addTxOuts memory rules tx blockHeight, .ok stxos)

/-- The cache keeps what was connected before an error. -/
def connectTransactions (blockHeight : Int32) :
    UtxoCache → List MsgTx → UtxoCache × Except CacheError (List SpentTxOut)
  | cache, [] => (cache, .ok [])
  | cache, tx :: rest =>
    match cache.connectTransaction memory utxos readFails rules tx blockHeight with
    | (cache, .error error) => (cache, .error error)
    | (cache, .ok stxos) =>
      let (cache, more) := connectTransactions blockHeight cache rest
      (cache, more.map (stxos ++ ·))

end Model

structure MapOrder where
  entries : EntryMap → List (Sigma fun _ : OutPoint => Option CacheEntry)
  perm : ∀ map, (entries map).Perm map.entries

def MapOrder.asStored : MapOrder where
  entries map := map.entries
  perm _ := .refl _

inductive FlushMode
  | flushRequired
  | flushPeriodic
  | flushIfNeeded
deriving DecidableEq

/-- Five minutes, in nanoseconds. -/
def utxoFlushPeriodicInterval : Int := 300000000000

section Flush

def writeEntry (outPoint : OutPoint) (entry : Option CacheEntry) (dbTx : DbTx) :
    Except CacheError DbTx :=
  match entry with
  | none => dbDeleteUtxoEntry outPoint dbTx
  | some entry =>
    if entry.spent then dbDeleteUtxoEntry outPoint dbTx
    else if !entry.modified then .ok dbTx
    else dbPutUtxoEntry outPoint entry.coin dbTx

/-- What becomes of an entry in memory once it was written. -/
def keepEntry (eraseCache : Bool) (outPoint : OutPoint) (entry : Option CacheEntry)
    (map : EntryMap) : EntryMap :=
  match Lines.kept eraseCache entry with
  | none => map.erase outPoint
  | some entry => map.insert outPoint entry

def writeEntries (eraseCache : Bool) :
    List (Sigma fun _ : OutPoint => Option CacheEntry) → EntryMap → DbTx →
      EntryMap × Except CacheError DbTx
  | [], map, dbTx => (map, .ok dbTx)
  | ⟨outPoint, entry⟩ :: rest, map, dbTx =>
    match writeEntry outPoint entry dbTx with
    | .error error => (map, .error error)
    | .ok dbTx => writeEntries eraseCache rest (keepEntry eraseCache outPoint entry map) dbTx

def writeMaps (order : MapOrder) (eraseCache : Bool) :
    List (SizedMap OutPoint (Option CacheEntry)) → DbTx →
      List (SizedMap OutPoint (Option CacheEntry)) × Except CacheError DbTx
  | [], dbTx => ([], .ok dbTx)
  | sized :: rest, dbTx =>
    match writeEntries eraseCache (order.entries sized.map) sized.map dbTx with
    | (map, .error error) => ({ sized with map } :: rest, .error error)
    | (map, .ok dbTx) =>
      let (maps, result) := writeMaps order eraseCache rest dbTx
      ({ sized with map } :: maps, result)

theorem mem_keepEntry
    (held : other ∈ keepEntry eraseCache outPoint entry map) : other ∈ map ∨ other = outPoint := by
  rw [keepEntry] at held
  split at held
  · exact .inl (AList.mem_erase.mp held).2
  · exact ((AList.mem_insert _).mp held).symm

theorem mem_writeEntries (held : other ∈ (writeEntries eraseCache todo map dbTx).1) :
    other ∈ map ∨ other ∈ todo.map Sigma.fst := by
  induction todo generalizing map dbTx with
  | nil => exact .inl held
  | cons entry rest ih =>
    rw [writeEntries] at held
    split at held
    · exact .inl held
    · rcases ih held with before | later
      · rcases mem_keepEntry before with before | rfl
        · exact .inl before
        · exact .inr (.head _)
      · exact .inr (.tail _ later)

theorem MapOrder.mem_keys (order : MapOrder) (map : EntryMap) (outPoint : OutPoint) :
    outPoint ∈ (order.entries map).map Sigma.fst ↔ outPoint ∈ map := by
  rw [((order.perm map).map Sigma.fst).mem_iff, AList.mem_keys]
  rfl

theorem fewer_writeMaps {order : MapOrder} {eraseCache : Bool}
    {maps : List (SizedMap OutPoint (Option CacheEntry))} {dbTx : DbTx} :
    Fewer maps (writeMaps order eraseCache maps dbTx).1 := by
  induction maps generalizing dbTx with
  | nil => exact .nil
  | cons sized rest ih =>
    have shrinks : ∀ key ∈ (writeEntries eraseCache (order.entries sized.map) sized.map
        dbTx).1, key ∈ sized.map := by
      intro key held
      rcases mem_writeEntries held with before | walked
      · exact before
      · exact (order.mem_keys sized.map key).mp walked
    rw [writeMaps]
    split
    · next map error written =>
      rw [written] at shrinks
      refine .cons shrinks ?_
      exact List.forall₂_same.mpr fun _ _ _ held => held
    · next map dbTx written =>
      rw [written] at shrinks
      exact .cons shrinks ih

def writeSlice (order : MapOrder) (eraseCache : Bool) (slice : CachedEntries)
    (dbTx : DbTx) : CachedEntries where
  maps := (writeMaps order eraseCache slice.maps dbTx).1
  nonempty empty := by
    have same := (@fewer_writeMaps order eraseCache slice.maps dbTx).length_eq
    rw [empty] at same
    exact slice.nonempty (List.length_eq_zero_iff.mp same)
  separate := slice.separate.shrink fewer_writeMaps

def deletedMemory (memory : MemoryRules) (slice : CachedEntries) : UInt64 :=
  (slice.maps.map fun sized => (sized.map.entries.map fun entry =>
    if entry.2.elim false Line.spent then memoryUsage memory entry.2 else 0).sum).sum

variable (memory : MemoryRules) (order : MapOrder) (now : Int) (cache : UtxoCache)

def afterWrite (eraseCache : Bool) (dbTx : DbTx) : UtxoCache :=
  let cachedEntries := writeSlice order eraseCache cache.cachedEntries dbTx
  if eraseCache then
    { cache with cachedEntries := cachedEntries.deleteMaps, totalEntryMemory := 0 }
  else
    let deletedMem := deletedMemory memory cache.cachedEntries
    { cache with
      cachedEntries
      totalEntryMemory :=
        if cache.totalEntryMemory ≥ deletedMem then cache.totalEntryMemory - deletedMem
        else 0 }

/-- Write all entries to the transaction.  Memory is changed on the way, whether or not
the transaction is committed later. -/
def writeCache (bestHash : Hash) (eraseCache : Bool) (dbTx : DbTx) :
    UtxoCache × Except CacheError DbTx :=
  match (writeMaps order eraseCache cache.cachedEntries.maps dbTx).2 with
  | .error error =>
    ({ cache with
        cachedEntries := writeSlice order eraseCache cache.cachedEntries dbTx },
      .error error)
  | .ok written =>
    let after := cache.afterWrite memory order eraseCache dbTx
    match dbPutUtxoStateConsistency bestHash written with
    | .error error => (after, .error error)
    | .ok recorded =>
      ({ after with lastFlushHash := bestHash, lastFlushTime := now }, .ok recorded)

def shouldFlush (mode : FlushMode) (bestHash : Hash) : Bool :=
  match mode with
  | .flushRequired => cache.totalMemoryUsage memory ≥ 0
  | .flushIfNeeded =>
    if bestHash = cache.lastFlushHash then false
    else cache.totalMemoryUsage memory ≥ cache.maxTotalMemoryUsage
  | .flushPeriodic =>
    if now - cache.lastFlushTime > utxoFlushPeriodicInterval then
      cache.totalMemoryUsage memory ≥ 0
    else cache.totalMemoryUsage memory ≥ cache.maxTotalMemoryUsage

def erases (mode : FlushMode) : Bool :=
  mode = .flushRequired || cache.totalMemoryUsage memory ≥ cache.maxTotalMemoryUsage

def flush (mode : FlushMode) (bestHash : Hash) (dbTx : DbTx) : UtxoCache × Except CacheError DbTx :=
  if cache.shouldFlush memory now mode bestHash then
    cache.writeCache memory order now bestHash (cache.erases memory mode) dbTx
  else (cache, .ok dbTx)

/-- `FlushUtxoCache`, which only opens a transaction when a flush is due. -/
def flushUtxoCache (mode : FlushMode) (bestHash : Hash) (db : ChainDb)
    (budget : Option Nat) : UtxoCache × ChainDb × Except CacheError Unit :=
  if cache.shouldFlush memory now mode bestHash then
    dbUpdate db budget (cache.flush memory order now mode bestHash)
  else (cache, db, .ok ())

end Flush

section Init

variable (memory : MemoryRules) (rules : TxRules) (blockHash : MsgBlock → Hash)

def tipHash (base : Hash) (blocks : List StackedBlock) : Hash :=
  (blocks.getLast?).elim base fun stacked => blockHash stacked.block

def blocksAfter (status : Hash) : Hash → List StackedBlock → Option (List StackedBlock)
  | base, [] => if status = base then some [] else none
  | base, stacked :: rest =>
    if status = base then some (stacked :: rest)
    else blocksAfter status (blockHash stacked.block) rest

/-- What happens from outside while the node starts: the order of map walks, the clock,
failing reads and writes, and the number of blocks after which an interrupt is noticed. -/
structure StartContext where
  order : MapOrder
  now : Int
  readFails : OutPoint → Bool
  budget : Option Nat
  interruptAfter : Option Nat

def replayBlocks (context : StartContext) : Option Nat → List StackedBlock → UtxoCache →
    ChainDb → UtxoCache × ChainDb × Except CacheError Unit
  | _, [], cache, db => (cache, db, .ok ())
  | interruptAfter, stacked :: rest, cache, db =>
    match connectTransactions memory db.utxos context.readFails rules stacked.height
        cache stacked.block.transactions with
    | (cache, .error error) => (cache, db, .error error)
    | (cache, .ok _) =>
      match cache.flushUtxoCache memory context.order context.now .flushIfNeeded
          (blockHash stacked.block) db context.budget with
      | (cache, db, .error error) => (cache, db, .error error)
      | (cache, db, .ok ()) =>
        match interruptAfter with
        | some 0 => (cache, db, .error .interruptRequested)
        | some (more + 1) => replayBlocks context (some more) rest cache db
        | none => replayBlocks context none rest cache db

def flushedAt (cache : UtxoCache) (hash : Hash) (now : Int) : UtxoCache :=
  { cache with lastFlushHash := hash, lastFlushTime := now }

def initConsistentState (context : StartContext) (base : Hash) (cache : UtxoCache)
    (db : ChainDb) : UtxoCache × ChainDb × Except CacheError Unit :=
  let tip := tipHash blockHash base db.mainChain
  match db.utxoStateConsistency with
  | none =>
    let (_, db, result) := dbUpdate db context.budget fun dbTx =>
      ((), dbPutUtxoStateConsistency tip dbTx)
    (cache.flushedAt tip context.now, db, result)
  | some status =>
    if status = tip then (cache.flushedAt tip context.now, db, .ok ())
    else
      match blocksAfter blockHash status base db.mainChain with
      | none =>
        (cache, db, .error (.chain (.assert ("last utxo consistency status contains " ++
          "hash that is not in best chain: " ++ hashString status))))
      | some blocks =>
        match replayBlocks memory rules blockHash context context.interruptAfter blocks
            cache db with
        | (cache, db, .error error) => (cache, db, .error error)
        | (cache, db, .ok ()) => (cache.flushedAt tip context.now, db, .ok ())

end Init

end UtxoCache

end ModelOS.BlockChain
