import ModelOS.Wallet.SyncState

namespace ModelOS.Wallet

open Data Wire

/-! Notifications of the chain server, and whether a synced wallet follows the chain that
they tell of. -/

inductive Notification
  | blockConnected (block : BlockMeta)
  | blockDisconnected (block : BlockMeta)
  | relevantTx (record : TxRecord) (block : Option BlockMeta)
  | filteredBlockConnected (block : BlockMeta) (relevantTxs : List TxRecord)
deriving DecidableEq

section Handle

variable {Rest : Type} (books : Bookkeeping Rest) (client : ChainClient) (wallet : WalletState Rest)

def connectBlock (block : BlockMeta) : WalletState Rest × Except SyncError Unit :=
  setSyncedTo wallet ⟨block.height, block.hash, block.time⟩

def disconnectBlock (block : BlockMeta) : WalletState Rest × Except SyncError Unit :=
  if !wallet.chainSynced then (wallet, .ok ())
  else if wallet.syncedTo.height < block.height then (wallet, .ok ())
  else
    match fetchBlockHash wallet.db.sync block.height with
    | .error error => (wallet, .error error)
    | .ok hash =>
      if hash ≠ block.hash then (wallet, .ok ())
      else
        match fetchBlockHash wallet.db.sync (block.height - 1) >>= client.getBlockHeader with
        | .error error => (wallet, .error error)
        | .ok timestamp =>
          -- the hash goes into the block of the notification, not into the stamp
          match setSyncedTo wallet ⟨block.height - 1, .zero 32, timestamp⟩ with
          | (wallet, .error error) => (wallet, .error error)
          | (wallet, .ok ()) => updateTxs wallet (rollback books wallet.db.txs block.height)

/-- Errors are logged. -/
def handleNotification (notification : Notification) : WalletState Rest :=
  (update wallet <| match notification with
    | .blockConnected block => connectBlock wallet block
    | .blockDisconnected block => disconnectBlock books client wallet block
    | .relevantTx record block => updateTxs wallet (addRelevantTx books wallet.db.txs record block)
    | .filteredBlockConnected block relevantTxs =>
      updateTxs wallet (relevantTxs.foldlM (fun txs record =>
        addRelevantTx books txs record (some block)) wallet.db.txs)).1

end Handle

/-- The chain that was told of, from its tip on, and the blocks that were disconnected. -/
structure Notified where
  chain : List Block
  disconnected : List Block
deriving DecidableEq

namespace Notified

def next (notified : Notified) : Notification → Notified
  | .blockConnected block =>
    ⟨block.toBlock :: notified.chain, notified.disconnected.filter (· ≠ block.toBlock)⟩
  | .blockDisconnected block => ⟨notified.chain.tail, block.toBlock :: notified.disconnected⟩
  | _ => notified

/-- The notification continues the history: a block on top of the tip, the tip, or
transactions of blocks that are not disconnected. -/
def Continues (notified : Notified) : Notification → Prop
  | .blockConnected block => block.hash ≠ .zero 32 ∧
      ∃ tip ∈ notified.chain.head?, block.height.toInt = tip.height.toInt + 1
  | .blockDisconnected block =>
    ∃ parent lower, notified.chain = block.toBlock :: parent :: lower
  | .relevantTx _ block => ∀ mined ∈ block, mined.toBlock ∉ notified.disconnected
  | .filteredBlockConnected block _ => block.toBlock ∉ notified.disconnected

def ContinuesAll (notified : Notified) : List Notification → Prop
  | [] => True
  | notification :: later =>
    notified.Continues notification ∧ (notified.next notification).ContinuesAll later

end Notified

def Notification.IsDisconnect : Notification → Prop
  | .blockDisconnected _ => True
  | _ => False

section Follow

variable {Rest : Type} {books : Bookkeeping Rest} {client : ChainClient}
  {wallet : WalletState Rest} {notified : Notified} {notification : Notification}

structure Follows (wallet : WalletState Rest) (notified : Notified) : Prop where
  hashes : ∀ height hash, height ≤ wallet.syncedTo.height →
    wallet.db.sync.hashes height = some hash → ⟨hash, height⟩ ∈ notified.chain
  synced : notified.chain.head? = some ⟨wallet.syncedTo.hash, wallet.syncedTo.height⟩
  confirmed : ∀ txHash block, (wallet.db.txs.records (txHash, block)).isSome →
    block ∉ notified.disconnected

/-- A wallet that follows, is in sync and has the hash of its tip. -/
structure InSync (wallet : WalletState Rest) (notified : Notified) : Prop extends
    Follows wallet notified where
  chainSynced : wallet.chainSynced
  stored : wallet.db.sync.hashes wallet.syncedTo.height = some wallet.syncedTo.hash
  linked : notified.chain.IsChain fun upper lower => upper.height.toInt = lower.height.toInt + 1
  nonzero : ∀ block ∈ notified.chain, block.hash ≠ .zero 32

theorem addRelevantTx_ok (done : addRelevantTx books store record block = .ok after)
    (present : (after.records key).isSome) :
    (store.records key).isSome ∨ ∃ mined ∈ block, key.2 = mined.toBlock := by
  cases block with
  | none =>
    simp only [addRelevantTx, bind_eq_ok] at done
    obtain ⟨known, _, done⟩ := done
    cases known with
    | none =>
      cases done
      exact .inl present
    | some rest =>
      simp only [bind_eq_ok, pure_eq_ok] at done
      obtain ⟨_, _, rfl⟩ := done
      exact .inl present
  | some mined =>
    simp only [addRelevantTx] at done
    split at done
    · cases done
      exact .inl present
    · simp only [insertMinedTx, bind_eq_ok, pure_eq_ok] at done
      obtain ⟨_, ⟨_, _, rfl⟩, _, _, rfl⟩ := done
      rcases eq_or_ne key (record.hash, mined.toBlock) with rfl | other
      · exact .inr ⟨mined, rfl, rfl⟩
      · dsimp only at present
        rw [Function.update_of_ne other] at present
        exact .inl present

theorem addRelevantTxs_ok {records : List TxRecord} (done : records.foldlM (fun txs record =>
      addRelevantTx books txs record (some block)) store = .ok after)
    (present : (after.records key).isSome) :
    (store.records key).isSome ∨ key.2 = block.toBlock := by
  induction records generalizing store with
  | nil =>
    cases done
    exact .inl present
  | cons record records ih =>
    simp only [List.foldlM_cons, bind_eq_ok] at done
    obtain ⟨middle, first, later⟩ := done
    refine (ih later).elim (fun before => ?_) .inr
    obtain before | ⟨_, mined, same⟩ := addRelevantTx_ok first before
    · exact .inl before
    · exact .inr (Option.some.inj mined ▸ same)

/-- Recording transactions changes nothing else. -/
theorem InSync.updateTxs (inSync : InSync wallet notified) {txs : Except SyncError (TxStore Rest)}
    (kept : ∀ after, txs = .ok after → ∀ txHash block, (after.records (txHash, block)).isSome →
      block ∉ notified.disconnected) :
    InSync (update wallet (updateTxs wallet txs)).1 notified := by
  cases txs with
  | error error => exact inSync
  | ok after => exact { inSync with confirmed := kept after rfl }

theorem pred_of_above {upper lower : Int32} (above : upper.toInt = lower.toInt + 1) :
    upper - 1 = lower := by
  have low := lower.le_toInt
  have high := upper.toInt_lt
  rw [← Int32.toInt_inj, Int32.toInt_sub]
  change (upper.toInt - 1).bmod (2 ^ 32) = _
  rw [Int.bmod_eq_of_le (by omega) (by omega)]
  omega

theorem InSync.connectBlock {block : BlockMeta} (inSync : InSync wallet notified)
    (continues : notified.Continues (.blockConnected block)) :
    InSync (update wallet (connectBlock wallet block)).1
      (notified.next (.blockConnected block)) := by
  obtain ⟨nonzero, tip, isTip, above⟩ := continues
  rw [inSync.synced, Option.mem_some_iff] at isTip
  subst isTip
  have below := pred_of_above above
  obtain ⟨sync, done⟩ := @putSyncedTo_of_stored wallet.db.sync
    ⟨block.height, block.hash, block.time⟩ (by
      dsimp only
      rw [below, inSync.stored]
      rfl)
  obtain ⟨-, -, own, others⟩ := putSyncedTo_eq_ok done
  obtain ⟨lower, isChain⟩ := List.head?_eq_some_iff.mp inSync.synced
  rw [ModelOS.Wallet.connectBlock, setSyncedTo, done]
  dsimp only [update] at own others ⊢
  constructor
  · constructor
    · intro height hash bound present
      rcases eq_or_ne height block.height with rfl | other
      · rw [own] at present
        cases present
        exact .head _
      · refine .tail _ (inSync.hashes height hash ?_ (others _ _ other present))
        rw [Int32.le_iff_toInt_le] at bound ⊢
        rw [ne_eq, ← Int32.toInt_inj] at other
        dsimp only at above bound
        omega
    · rfl
    · intro txHash other present
      rw [Notified.next, List.mem_filter]
      exact fun member => inSync.confirmed txHash other present member.1
  · exact inSync.chainSynced
  · exact own
  · have linked := inSync.linked
    rw [Notified.next, isChain] at *
    exact List.isChain_cons_cons.mpr ⟨above, linked⟩
  · exact List.forall_mem_cons.mpr ⟨nonzero, inSync.nonzero⟩

theorem syncedTo_disconnectBlock (block : BlockMeta) :
    (disconnectBlock books client wallet block).1.syncedTo = wallet.syncedTo ∨
      (disconnectBlock books client wallet block).1.syncedTo.hash = .zero 32 := by
  rw [disconnectBlock]
  split
  · exact .inl rfl
  split
  · exact .inl rfl
  split
  · exact .inl rfl
  split
  · exact .inl rfl
  split
  · exact .inl rfl
  rw [setSyncedTo]
  split
  · next failed =>
    split at failed
    · cases failed
      exact .inl rfl
    · cases failed
  · next done =>
    split at done
    · cases done
    · cases done
      rw [syncedTo_updateTxs]
      exact .inr rfl

/-- A disconnected tip leaves the wallet at the tip, or at a block without its hash. -/
theorem InSync.not_follows_disconnect (inSync : InSync wallet notified)
    (continues : notified.Continues (.blockDisconnected block)) :
    ¬ Follows (handleNotification books client wallet (.blockDisconnected block))
      (notified.next (.blockDisconnected block)) := by
  intro follows
  obtain ⟨parent, lower, chain⟩ := continues
  have head := follows.synced
  have linked := inSync.linked
  have tip := inSync.synced
  rw [chain] at linked tip
  rw [Notified.next, chain] at head
  have isParent := Option.some.inj head
  rw [handleNotification, syncedTo_update] at isParent
  rcases @syncedTo_disconnectBlock Rest books client wallet block with same | zero
  · rw [same, ← Option.some.inj tip] at isParent
    have above := (List.isChain_cons_cons.mp linked).1
    rw [isParent] at above
    omega
  · refine inSync.nonzero parent (by simp [chain]) ?_
    rw [isParent]
    exact zero

theorem InSync.handleNotification (inSync : InSync wallet notified)
    (continues : notified.Continues notification) (stays : ¬ notification.IsDisconnect) :
    InSync (handleNotification books client wallet notification) (notified.next notification) := by
  cases notification with
  | blockConnected block => exact inSync.connectBlock continues
  | blockDisconnected block => exact absurd trivial stays
  | relevantTx record block =>
    refine inSync.updateTxs fun after done txHash other present => ?_
    obtain before | ⟨mined, isMined, rfl⟩ := addRelevantTx_ok done present
    · exact inSync.confirmed txHash other before
    · exact continues mined isMined
  | filteredBlockConnected block relevantTxs =>
    refine inSync.updateTxs fun after done txHash other present => ?_
    obtain before | rfl := addRelevantTxs_ok done present
    · exact inSync.confirmed txHash other before
    · exact continues

/-- After every notification of a history the wallet follows exactly if no block is
disconnected in it. -/
theorem follows_iff_no_disconnect (books : Bookkeeping Rest) (client : ChainClient)
    (history : List Notification) (inSync : InSync wallet notified)
    (continues : notified.ContinuesAll history) : (∀ told, told <+: history →
      Follows (told.foldl (ModelOS.Wallet.handleNotification books client) wallet)
        (told.foldl Notified.next notified)) ↔
      ∀ notification ∈ history, ¬ notification.IsDisconnect := by
  induction history generalizing wallet notified with
  | nil =>
    refine ⟨by rintro _ _ ⟨⟩, fun _ told isPrefix => ?_⟩
    rw [List.prefix_nil.mp isPrefix]
    exact inSync.toFollows
  | cons notification later ih =>
    obtain ⟨first, others⟩ := continues
    have kept (stays : ¬ notification.IsDisconnect) :
        InSync (ModelOS.Wallet.handleNotification books client wallet notification)
          (notified.next notification) := inSync.handleNotification first stays
    constructor
    · intro follows
      have stays : ¬ notification.IsDisconnect := by
        have next := follows [notification] (List.prefix_append [notification] later)
        cases notification with
        | blockDisconnected block => exact absurd next (inSync.not_follows_disconnect first)
        | _ => exact id
      refine List.forall_mem_cons.mpr ⟨stays, ?_⟩
      refine (ih (kept stays) others).mp ?_
      exact fun told isPrefix => follows (notification :: told)
        (List.cons_prefix_cons.mpr ⟨rfl, isPrefix⟩)
    · intro stays told isPrefix
      obtain ⟨stays, laterStays⟩ := List.forall_mem_cons.mp stays
      cases told with
      | nil => exact inSync.toFollows
      | cons head told =>
        obtain ⟨rfl, rest⟩ := List.cons_prefix_cons.mp isPrefix
        exact (ih (kept stays) others).mpr laterStays told rest

end Follow

namespace ReorganizedWallet

def genesis : Block :=
  ⟨.ofNat 32 0x32587e2447b0432f2cce83b08c81b3bebb1ecaffefbddbe9a8516adf27abd078, 0⟩

def first : Block :=
  ⟨.ofNat 32 0xefefb09aa08de93d5635b211a014c9f022e0182c886a34158427e98f79249eea, 1⟩

def second : Block :=
  ⟨.ofNat 32 0x41771ce5dd9d871365758e448ba9e29d61c40845acc1842a750271ebc694c77b, 2⟩

def record : TxRecord where
  hash := .ofNat 32 0xd8721dea30fd7b487c2d360d286b86ae353f1399cc47015307e3f5409c6a2999
  msgTx := ⟨1, [⟨⟨.fill 32 0x11, 0⟩, [], [], 0xffffffff⟩], [⟨1000, [0x51]⟩], 0⟩

def books : Bookkeeping Unit where
  insertMemPoolTx _ _ := .ok (some ())
  insertMinedTx _ _ _ := .ok ()
  addCredits _ _ _ := .ok ()
  detach _ _ _ := .ok ()
  removeConflicts _ := .ok ()

def client : ChainClient where
  getBestBlock := .ok 2
  getBlockHash height := .ok (([genesis, first, second].getD height.toNatClampNeg genesis).hash)
  getBlockHeader _ := .ok 1776675601

/-- The wallet knows the genesis block and the first block. -/
def wallet : WalletState Unit where
  db.sync.hashes height :=
    if height = 0 then some genesis.hash else if height = 1 then some first.hash else none
  db.sync.syncedTo := ⟨1, first.hash, 1776675601⟩
  db.sync.birthdayBlock := some ⟨0, genesis.hash, 1776675600⟩
  db.txs := ⟨[], fun _ => none, ()⟩
  syncedTo := ⟨1, first.hash, 1776675601⟩
  chainSynced := true

def notified : Notified :=
  ⟨[first, genesis], []⟩

theorem inSync : InSync wallet notified where
  hashes height hash _ stored := by
    simp only [wallet] at stored
    split at stored
    · next zero =>
      cases stored
      subst zero
      decide
    · split at stored
      · next one =>
        cases stored
        subst one
        decide
      · cases stored
  synced := rfl
  confirmed _ _ present := by cases present
  chainSynced := rfl
  stored := rfl
  linked := by decide
  nonzero := by decide

/-- A transaction in the first block, and the second block. -/
def history : List Notification :=
  [.relevantTx record (some ⟨first, 1776675601⟩), .blockConnected ⟨second, 1776675602⟩]

/-- Both blocks are disconnected, the second one first. -/
def reorganization : List Notification :=
  [.blockDisconnected ⟨second, 1776675602⟩, .blockDisconnected ⟨first, 1776675601⟩]

end ReorganizedWallet

open ReorganizedWallet in
theorem follows_without_disconnect :
    Follows (history.foldl (handleNotification books client) wallet)
      (history.foldl Notified.next notified) := by
  refine (follows_iff_no_disconnect books client history inSync ?_).mpr ?_ history List.prefix_rfl
  · refine ⟨?_, ⟨by decide, first, rfl, rfl⟩, trivial⟩
    simp [Notified.Continues, notified]
  · simp [history, Notification.IsDisconnect]

open ReorganizedWallet in
theorem loses_track_after_disconnect :
    let after := history.foldl (handleNotification books client) wallet
    let one := handleNotification books client after (.blockDisconnected ⟨second, 1776675602⟩)
    let two := handleNotification books client one (.blockDisconnected ⟨first, 1776675601⟩)
    (history ++ reorganization).foldl Notified.next notified = ⟨[genesis], [first, second]⟩ ∧
      after.syncedTo.hash = second.hash ∧ one.syncedTo = ⟨1, .zero 32, 1776675601⟩ ∧
      one.db.sync.hashes 1 = some (.zero 32) ∧ two.syncedTo = one.syncedTo ∧
      two.db.txs.records (record.hash, first) = some record := by
  decide

end ModelOS.Wallet
