import ModelOS.Data.Checked
import ModelOS.ZkPow.Verify

namespace ModelOS.Wallet

open Data Wire ZkPow

/-! The hashes of the last blocks, the block the wallet is synced to and the
transactions it has recorded in blocks. -/

structure BlockStamp where
  height : Int32
  hash : Hash
  timestamp : UInt32
deriving DecidableEq

inductive SyncError
  | blockNotFound (description : String)
  | other (description : String)
deriving DecidableEq

structure SyncBucket where
  hashes : Int32 → Option Hash
  syncedTo : BlockStamp
  birthdayBlock : Option BlockStamp

def maxReorgDepth : Int32 := 10000

def staleHeight (height : Int32) : Int32 :=
  height - maxReorgDepth

def fetchBlockHash (bucket : SyncBucket) (height : Int32) : Except SyncError Hash :=
  present (bucket.hashes height)
    (.blockNotFound ("failed to fetch block hash for height " ++ toString height))

/-- The hash below is only asked for once the birthday block is known. -/
def putSyncedTo (bucket : SyncBucket) (bs : BlockStamp) : Except SyncError SyncBucket := do
  require (0 < bs.height → bucket.birthdayBlock.isSome → (bucket.hashes (bs.height - 1)).isSome)
    (.blockNotFound ("failed to store sync information " ++ hashString bs.hash))
  let hashes := Function.update bucket.hashes bs.height (some bs.hash)
  let stale := staleHeight bs.height
  return { bucket with
    hashes := if 0 < stale then Function.update hashes stale none else hashes
    syncedTo := bs }

structure Block where
  hash : Hash
  height : Int32
deriving DecidableEq

structure BlockMeta extends Block where
  time : UInt32
deriving DecidableEq

structure BlockRecord extends BlockMeta where
  transactions : List Hash
deriving DecidableEq

structure TxRecord where
  hash : Hash
  msgTx : MsgTx
deriving DecidableEq

/-- The block records from the highest on, and the transactions by hash and block. The
buckets of credits, debits, unspent outputs and unconfirmed transactions, which nothing here
reads, are `rest`. -/
structure TxStore (Rest : Type) where
  blocks : List BlockRecord
  records : Hash × Block → Option TxRecord
  rest : Rest

/-- What the calls do to the other buckets; nothing for an unconfirmed transaction that is
known. -/
structure Bookkeeping (Rest : Type) where
  insertMemPoolTx : TxStore Rest → TxRecord → Except SyncError (Option Rest)
  insertMinedTx : Rest → TxRecord → BlockMeta → Except SyncError Rest
  addCredits : Rest → TxRecord → Option BlockMeta → Except SyncError Rest
  detach : Rest → TxRecord → Block → Except SyncError Rest
  removeConflicts : Rest → Except SyncError Rest

variable {Rest : Type}

/-- A block record at the height is kept, whatever block it is of. -/
def addToBlock (block : BlockMeta) (txHash : Hash) : List BlockRecord → List BlockRecord
  | [] => [⟨block, [txHash]⟩]
  | record :: lower =>
    if record.height = block.height then
      { record with transactions := record.transactions ++ [txHash] } :: lower
    else if record.height < block.height then ⟨block, [txHash]⟩ :: record :: lower
    else record :: addToBlock block txHash lower

section Store

variable (books : Bookkeeping Rest)

def insertMinedTx (store : TxStore Rest) (record : TxRecord) (block : BlockMeta) :
    Except SyncError (TxStore Rest) := do
  let rest ← books.insertMinedTx store.rest record block
  return { blocks := addToBlock block record.hash store.blocks
           records := Function.update store.records (record.hash, block.toBlock) (some record)
           rest }

def addRelevantTx (store : TxStore Rest) (record : TxRecord) (block : Option BlockMeta) :
    Except SyncError (TxStore Rest) := do
  match block with
  | none =>
    match ← books.insertMemPoolTx store record with
    | none => return store
    | some rest => return { store with rest := ← books.addCredits rest record none }
  | some mined =>
    if (store.records (record.hash, mined.toBlock)).isSome then return store
    let store ← insertMinedTx books store record mined
    return { store with rest := ← books.addCredits store.rest record block }

def detachTx (block : Block) (store : TxStore Rest) (txHash : Hash) :
    Except SyncError (TxStore Rest) := do
  let record ← present (store.records (txHash, block))
    (.other "t: short read (expected 8 bytes, read 0)")
  let rest ← books.detach store.rest record block
  return { store with records := Function.update store.records (txHash, block) none, rest }

def rollback (store : TxStore Rest) (height : Int32) : Except SyncError (TxStore Rest) := do
  let removed := store.blocks.takeWhile fun record => height ≤ record.height
  let detached ← removed.foldlM (fun store record =>
    record.transactions.foldlM (detachTx books record.toBlock) store) store
  let rest ← books.removeConflicts detached.rest
  return { detached with
    blocks := store.blocks.dropWhile fun record => height ≤ record.height
    rest }

end Store

structure WalletDb (Rest : Type) where
  sync : SyncBucket
  txs : TxStore Rest

/-- The block that the manager is synced to is also kept in memory. -/
structure WalletState (Rest : Type) where
  db : WalletDb Rest
  syncedTo : BlockStamp
  chainSynced : Bool

structure ChainClient where
  getBestBlock : Except SyncError Int32
  getBlockHash : Int32 → Except SyncError Hash
  getBlockHeader : Hash → Except SyncError UInt32

def setSyncedTo (wallet : WalletState Rest) (bs : BlockStamp) :
    WalletState Rest × Except SyncError Unit :=
  match putSyncedTo wallet.db.sync bs with
  | .error error => (wallet, .error error)
  | .ok sync => ({ wallet with db.sync := sync, syncedTo := bs }, .ok ())

/-- The database is as it was before a call that fails; the memory is not. -/
def update (wallet : WalletState Rest) (call : WalletState Rest × Except SyncError Unit) :
    WalletState Rest × Except SyncError Unit :=
  match call with
  | (after, .ok ()) => (after, .ok ())
  | (after, .error error) => ({ after with db := wallet.db }, .error error)

def updateTxs (wallet : WalletState Rest) (txs : Except SyncError (TxStore Rest)) :
    WalletState Rest × Except SyncError Unit :=
  match txs with
  | .error error => (wallet, .error error)
  | .ok txs => ({ wallet with db.txs := txs }, .ok ())

@[simp] theorem syncedTo_update (wallet : WalletState Rest)
    (call : WalletState Rest × Except SyncError Unit) :
    (update wallet call).1.syncedTo = call.1.syncedTo := by
  obtain ⟨after, error | done⟩ := call <;> rfl

@[simp] theorem syncedTo_updateTxs (wallet : WalletState Rest)
    (txs : Except SyncError (TxStore Rest)) :
    (updateTxs wallet txs).1.syncedTo = wallet.syncedTo := by
  cases txs <;> rfl

theorem putSyncedTo_eq_ok
    (done : putSyncedTo bucket bs = .ok after) :
    after.syncedTo = bs ∧ after.birthdayBlock = bucket.birthdayBlock ∧
      after.hashes bs.height = some bs.hash ∧
      ∀ height hash, height ≠ bs.height → after.hashes height = some hash →
        bucket.hashes height = some hash := by
  simp only [putSyncedTo, bind_eq_ok, require_eq_ok, pure_eq_ok] at done
  obtain ⟨_, _, rfl⟩ := done
  have apart : bs.height ≠ staleHeight bs.height := by
    rw [staleHeight, maxReorgDepth]
    grind
  refine ⟨rfl, rfl, ?_, fun height hash other => ?_⟩
  · dsimp only
    split
    · rw [Function.update_of_ne apart, Function.update_self]
    · rw [Function.update_self]
  · dsimp only
    split
    · rcases eq_or_ne height (staleHeight bs.height) with rfl | kept
      · rw [Function.update_self]
        rintro ⟨⟩
      · rw [Function.update_of_ne kept, Function.update_of_ne other]
        exact id
    · rw [Function.update_of_ne other]
      exact id

theorem putSyncedTo_of_stored {bucket : SyncBucket} {bs : BlockStamp}
    (stored : (bucket.hashes (bs.height - 1)).isSome) :
    ∃ after, putSyncedTo bucket bs = .ok after :=
  ⟨_, by rw [putSyncedTo, require_pos fun _ _ => stored]; rfl⟩

end ModelOS.Wallet
