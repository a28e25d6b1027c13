import ModelOS.BlockChain.UtxoView
import ModelOS.Data.LedgerJournal

namespace ModelOS.BlockChain

open Data Wire

/-! `connectTransactions` does not look whether an entry is spent, so the journal holds
what was last known of an output. -/

def UtxoEntries.last (entries : UtxoEntries) : Ledger OutPoint SpentTxOut := fun outPoint =>
  (entries outPoint).map UtxoEntry.toSpentTxOut

theorem last_update (entries : UtxoEntries) (outPoint : OutPoint) (entry : Option UtxoEntry) :
    UtxoEntries.last (Function.update entries outPoint entry) =
      Function.update entries.last outPoint (entry.map UtxoEntry.toSpentTxOut) := by
  funext key
  exact Function.apply_update (fun _ entry => Option.map UtxoEntry.toSpentTxOut entry)
    entries outPoint entry key

section Record

variable {rules : TxRules} {entries after : UtxoEntries} {tx : MsgTx}
  {blockHeight : Int32} {stxos : List SpentTxOut}

theorem last_addTxOuts : (addTxOuts rules entries tx blockHeight).last =
      entries.last.create (txTransfer rules blockHeight tx).created := by
  simp only [addTxOuts, txTransfer, Ledger.create, List.foldl_map]
  induction spendableOutputs rules tx generalizing entries with
  | nil => rfl
  | cons output rest ih =>
    rw [List.foldl_cons, List.foldl_cons, ih, last_update]
    rfl

theorem last_addTxIns
    (connected : addTxIns .view entries inputs = (after, .ok stxos)) : after.last = entries.last ∧
      (inputs.map TxIn.previousOutPoint).mapM entries.last = some stxos := by
  induction inputs generalizing entries stxos with
  | nil =>
    cases connected
    exact ⟨rfl, rfl⟩
  | cons txIn rest ih =>
    rw [addTxIns] at connected
    split at connected
    · cases connected
    · next entry held =>
      obtain ⟨rfl, mapped⟩ := Prod.mk.inj connected
      cases result : (addTxIns .view (Function.update entries
          txIn.previousOutPoint (UtxoStore.view.afterSpend entry)) rest).2 with
      | error error =>
        rw [result] at mapped
        cases mapped
      | ok others =>
        rw [result] at mapped
        cases mapped
        have kept : UtxoEntries.last (Function.update entries txIn.previousOutPoint
            (UtxoStore.view.afterSpend entry)) = entries.last := by
          rw [last_update]
          apply Function.update_eq_self_iff.mpr
          rw [UtxoEntries.last, held]
          rfl
        obtain ⟨same, recorded⟩ := ih (Prod.ext rfl result)
        rw [kept] at same recorded
        refine ⟨same, ?_⟩
        rw [List.map_cons, List.mapM_cons, recorded, UtxoEntries.last, held]
        rfl

theorem last_connectTransaction
    (connected : connectTransaction rules .view entries tx blockHeight = (after, .ok stxos)) :
    after.last = entries.last.create (txTransfer rules blockHeight tx).created ∧
      (txTransfer rules blockHeight tx).spent.mapM entries.last = some stxos := by
  rw [connectTransaction] at connected
  split at connected
  · next isCoinBase =>
    cases connected
    refine ⟨last_addTxOuts, ?_⟩
    simp [txTransfer, isCoinBase]
  · next notCoinBase =>
    split at connected
    · cases connected
    · next middle spentOutputs spent =>
      cases connected
      obtain ⟨same, recorded⟩ := last_addTxIns spent
      rw [last_addTxOuts, same]
      refine ⟨rfl, ?_⟩
      simp only [txTransfer, notCoinBase]
      exact recorded

theorem last_connectTransactions
    (connected : connectTransactions rules .view entries blockHeight transactions =
      (after, .ok stxos)) :
    after.last = entries.last.lastAll (blockTransfers rules blockHeight transactions) ∧
      Ledger.record (blockTransfers rules blockHeight transactions) entries.last = some stxos := by
  induction transactions generalizing entries stxos with
  | nil =>
    cases connected
    exact ⟨rfl, rfl⟩
  | cons tx rest ih =>
    rw [connectTransactions] at connected
    split at connected
    · cases connected
    · next middle first spent =>
      obtain ⟨rfl, mapped⟩ := Prod.mk.inj connected
      cases result : (connectTransactions rules .view middle blockHeight rest).2 with
      | error error =>
        rw [result] at mapped
        cases mapped
      | ok others =>
        rw [result] at mapped
        cases mapped
        obtain ⟨moved, recorded⟩ := last_connectTransaction spent
        obtain ⟨later, recordedLater⟩ := ih (Prod.ext rfl result)
        rw [moved] at later recordedLater
        refine ⟨later, ?_⟩
        rw [blockTransfers_cons, Ledger.record, recorded, recordedLater]
        rfl

end Record

structure StackedBlock where
  block : MsgBlock
  height : Int32

/-- The first transaction is a coinbase and no other one is. -/
def OneCoinBase (transactions : List MsgTx) : Prop :=
  (transactions.head?.map isCoinBaseTx) = some true ∧
    ∀ tx ∈ transactions.tail, isCoinBaseTx tx = false

instance (transactions : List MsgTx) : Decidable (OneCoinBase transactions) := by
  unfold OneCoinBase
  infer_instance

section Stack

variable (rules : TxRules) (blockHash : MsgBlock → Hash)

def connectStack (view : UtxoViewpoint) :
    List StackedBlock → Except ChainError (UtxoViewpoint × List (List SpentTxOut))
  | [] => .ok (view, [])
  | stacked :: rest =>
    match connectTransactions rules .view view.entries stacked.height
        stacked.block.transactions with
    | (_, .error error) => .error error
    | (entries, .ok stxos) => do
        let (top, journals) ← connectStack ⟨entries, blockHash stacked.block⟩ rest
        return (top, stxos :: journals)

/-- The last block is disconnected first. -/
def disconnectStack (top : UtxoViewpoint) :
    List (StackedBlock × List SpentTxOut) → Except ChainError UtxoViewpoint
  | [] => .ok top
  | (stacked, stxos) :: rest => do
      let view ← disconnectStack top rest
      disconnectTransactions rules view stacked.block stacked.height stxos

def stackTransfers (blocks : List StackedBlock) : List (Transfer OutPoint SpentTxOut) :=
  blocks.flatMap fun stacked =>
    blockTransfers rules stacked.height stacked.block.transactions

theorem stackTransfers_cons (stacked : StackedBlock) (rest : List StackedBlock) :
    stackTransfers rules (stacked :: rest) =
      blockTransfers rules stacked.height stacked.block.transactions ++ stackTransfers rules rest :=
  List.flatMap_cons

variable {rules blockHash}

theorem OneCoinBase.exists_cons (sane : OneCoinBase transactions) :
    ∃ coinbase others, transactions = coinbase :: others ∧
      isCoinBaseTx coinbase = true ∧ ∀ tx ∈ others, isCoinBaseTx tx = false := by
  obtain ⟨first, rest⟩ := sane
  cases transactions with
  | nil => cases first
  | cons coinbase others => exact ⟨coinbase, others, rfl, Option.some.inj first, rest⟩

theorem disconnectTransactions_of_record {view : UtxoViewpoint} {block : MsgBlock}
    {blockHeight : Int32} {last : Ledger OutPoint SpentTxOut} {stxos : List SpentTxOut}
    (sane : OneCoinBase block.transactions)
    (recorded : Ledger.record (blockTransfers rules blockHeight block.transactions) last =
      some stxos) : ∃ below, disconnectTransactions rules view block blockHeight stxos = .ok below ∧
      ∀ outPoint, below.entries.unspent outPoint =
        (Ledger.firstTouch (blockTransfers rules blockHeight block.transactions)
          outPoint).pick (view.entries.unspent outPoint) (last outPoint) none := by
  obtain ⟨coinbase, others, transactions, isCoinBase, notCoinBase⟩ := sane.exists_cons
  have count := Ledger.length_of_record recorded
  rw [transactions, sum_spent_blockTransfers isCoinBase notCoinBase, ← transactions]
    at count
  obtain ⟨below, undone, ledger, -⟩ := @disconnectTransactions_of_count rules blockHeight
    stxos view block coinbase others transactions isCoinBase notCoinBase count
  refine ⟨below, undone, fun outPoint => ?_⟩
  rw [ledger, Ledger.undoAll_apply_of_record recorded]

/-- What disconnecting a stack leaves at an outpoint depends on what the stack did to it
first. -/
theorem disconnectStack_of_connectStack
    (sane : ∀ stacked ∈ blocks, OneCoinBase stacked.block.transactions)
    (connected : connectStack rules blockHash view blocks = .ok (top, journals)) :
    ∃ below, disconnectStack rules top (blocks.zip journals) = .ok below ∧
      ∀ outPoint, below.entries.unspent outPoint =
        (Ledger.firstTouch (stackTransfers rules blocks) outPoint).pick
          (top.entries.unspent outPoint) (view.entries.last outPoint) none := by
  induction blocks generalizing view journals with
  | nil =>
    cases connected
    exact ⟨top, rfl, fun _ => rfl⟩
  | cons stacked rest ih =>
    rw [connectStack] at connected
    split at connected
    · cases connected
    · next entries stxos connectedHere =>
      rw [bind_eq_ok] at connected
      obtain ⟨⟨_, others⟩, connectedRest, same⟩ := connected
      cases same
      rw [List.forall_mem_cons] at sane
      obtain ⟨middle, undone, ledger⟩ := ih sane.2 connectedRest
      obtain ⟨moved, recorded⟩ := last_connectTransactions connectedHere
      obtain ⟨below, undoneHere, ledgerHere⟩ :=
        @disconnectTransactions_of_record rules middle _ _ _ _ sane.1 recorded
      refine ⟨below, ?_, fun outPoint => ?_⟩
      · rw [List.zip_cons_cons, disconnectStack, undone]
        exact undoneHere
      · rw [ledgerHere, stackTransfers_cons, Ledger.firstTouch_append]
        cases first : Ledger.firstTouch
            (blockTransfers rules stacked.height stacked.block.transactions) outPoint with
        | untouched =>
          have outcome := ledger outPoint
          rw [moved, Ledger.lastAll_apply_of_untouched first] at outcome
          exact outcome
        | spent => rfl
        | created => rfl

theorem unspent_connectStack
    (connected : connectStack rules blockHash view blocks = .ok (top, journals)) :
    top.entries.unspent = view.entries.unspent.applyAll (stackTransfers rules blocks) := by
  induction blocks generalizing view journals with
  | nil =>
    cases connected
    rfl
  | cons stacked rest ih =>
    rw [connectStack] at connected
    split at connected
    · cases connected
    · next entries stxos connectedHere =>
      rw [bind_eq_ok] at connected
      obtain ⟨⟨_, others⟩, connectedRest, same⟩ := connected
      cases same
      rw [ih connectedRest, unspent_connectTransactions connectedHere, stackTransfers_cons]
      simp only [Ledger.applyAll, List.foldl_append]

def UtxoViewpoint.AllUnspent (view : UtxoViewpoint) : Prop :=
  ∀ outPoint entry, view.entries outPoint = some entry → entry.spent = false

theorem UtxoViewpoint.AllUnspent.last_eq {view : UtxoViewpoint}
    (allUnspent : view.AllUnspent) : view.entries.last = view.entries.unspent := by
  funext outPoint
  cases held : view.entries outPoint with
  | none => simp only [UtxoEntries.last, UtxoEntries.unspent, held, Option.map_none,
      Option.bind_none]
  | some entry =>
    simp only [UtxoEntries.last, UtxoEntries.unspent, held, Option.map_some,
      Option.bind_some, UtxoEntry.unspent, allUnspent outPoint entry held]
    rfl

/-- Disconnecting a stack of blocks from the last to the first gives back exactly the
unspent outputs below it where no output is created over one that is still unspent. -/
theorem disconnect_restores_iff {view top : UtxoViewpoint} {blocks : List StackedBlock}
    {journals : List (List SpentTxOut)} (allUnspent : view.AllUnspent)
    (sane : ∀ stacked ∈ blocks, OneCoinBase stacked.block.transactions)
    (connected : connectStack rules blockHash view blocks = .ok (top, journals)) :
    ∃ below, disconnectStack rules top (blocks.zip journals) = .ok below ∧
      (below.entries.unspent = view.entries.unspent ↔
        ∀ outPoint, Ledger.firstTouch (stackTransfers rules blocks) outPoint = .created →
          view.entries.unspent outPoint = none) := by
  obtain ⟨below, undone, ledger⟩ := disconnectStack_of_connectStack sane connected
  refine ⟨below, undone, ?_, ?_⟩
  · intro restored outPoint created
    rw [← restored, ledger, created]
    rfl
  · intro fresh
    funext outPoint
    rw [ledger]
    cases first : Ledger.firstTouch (stackTransfers rules blocks) outPoint with
    | untouched =>
      rw [unspent_connectStack connected]
      exact Ledger.applyAll_apply_of_untouched first
    | spent =>
      rw [allUnspent.last_eq]
      rfl
    | created => exact (fresh outPoint first).symm

end Stack

namespace TwoBlocks

def payout : Bytes :=
  [0x52, 0x20] ++ FixedBytes.bytes (.ofNat 32
    0xa85b2107f791b26a84e7586c28cec7cb61202ed3d01944d832500f363782d675)

def coinbase (height : UInt8) : MsgTx where
  version := 1
  txIn := [⟨⟨.zero 32, 0xffffffff⟩, [0x50 + height, 0], [], 0xffffffff⟩]
  txOut := [⟨250000000000, payout⟩]
  lockTime := 0

def firstTxid : Hash :=
  .ofNat 32 0x1d654f2112f97ac5e3c51e58cd6a5bba605ec256cf91b425d1d1c006d4e2ab5d

def secondTxid : Hash :=
  .ofNat 32 0xe696e8bea4ffbea7eb3adc912386bd6cb027240c5cd809d552d55c65a1f75010

def thirdTxid : Hash :=
  .ofNat 32 0x8f9dbe63a27dfdb3fa9508c3ddd363d01e20488735962ee0bdab9135b4d53e62

def paymentTxid : Hash :=
  .ofNat 32 0x7f2ec0c711bd80308c05a38b4df7543de65279de2163513993323f31f1fe7c94

def sweepTxid : Hash :=
  .ofNat 32 0x1935f2cf3465240c04382f8e07494b8699da82f09eac70dece7a62fc8c3f6c95

def payment : MsgTx where
  version := 1
  txIn := [⟨⟨firstTxid, 0⟩, [], [], 0xffffffff⟩]
  txOut := [⟨100, [0x6a]⟩, ⟨200000000000, payout⟩]
  lockTime := 0

def sweep : MsgTx where
  version := 1
  txIn := [⟨⟨paymentTxid, 1⟩, [], [], 0xffffffff⟩, ⟨⟨secondTxid, 0⟩, [], [], 0xffffffff⟩]
  txOut := [⟨400000000000, payout⟩]
  lockTime := 0

def rules : TxRules where
  txHash tx :=
    if tx = coinbase 1 then firstTxid
    else if tx = coinbase 2 then secondTxid
    else if tx = coinbase 3 then thirdTxid
    else if tx = payment then paymentTxid
    else if tx = sweep then sweepTxid
    else .zero 32
  isUnspendable script := script.head? = some 0x6a

def block (transactions : List MsgTx) : MsgBlock where
  msgHeader :=
    { certificate := none
      blockHeader :=
        { version := 1, prevBlock := .zero 32, merkleRoot := .zero 32, timestamp := 0,
          bits := 0, proofCommitment := .zero 32 } }
  auxPow := none
  transactions

def view : UtxoViewpoint where
  entries := Function.update (fun _ => none) ⟨firstTxid, 0⟩ (some
    { amount := 250000000000, pkScript := payout, height := 1, isCoinBase := true,
      spent := false, fresh := false })
  bestHash := .zero 32

def blocks : List StackedBlock :=
  [⟨block [coinbase 2, payment], 2⟩, ⟨block [coinbase 3, sweep], 3⟩]

theorem allUnspent : view.AllUnspent := by
  intro outPoint entry held
  simp only [view, Function.update_apply] at held
  split at held
  · cases held
    rfl
  · cases held

def repeated : List StackedBlock :=
  [⟨block [coinbase 1], 2⟩]

def headless : List StackedBlock :=
  [⟨block [payment], 2⟩]

end TwoBlocks

open TwoBlocks in
/-- An output that a block creates a second time while it is unspent is lost, and a block
whose first transaction is no coinbase is not disconnected at all. -/
theorem disconnect_loses_recreated_output : (∃ top journals below,
      connectStack rules (fun _ => .zero 32) view repeated = .ok (top, journals) ∧
      disconnectStack rules top (repeated.zip journals) = .ok below ∧
      below.entries.unspent ⟨firstTxid, 0⟩ = none ∧
      view.entries.unspent ⟨firstTxid, 0⟩ = some ⟨250000000000, payout, 1, true⟩) ∧
    ∃ top journals, connectStack rules (fun _ => .zero 32) view headless = .ok (top, journals) ∧
      ∃ description, disconnectStack rules top (headless.zip journals) =
        .error (.assert description) := by
  refine ⟨⟨_, _, _, rfl, rfl, ?_, ?_⟩, _, _, rfl, _, rfl⟩
  · decide
  · decide

open TwoBlocks in
theorem disconnect_restores_two_blocks : ∃ top below,
      connectStack rules (fun _ => .zero 32) view blocks =
        .ok (top, [[⟨250000000000, payout, 1, true⟩],
          [⟨200000000000, payout, 2, false⟩, ⟨250000000000, payout, 2, true⟩]]) ∧
      disconnectStack rules top (blocks.zip [[⟨250000000000, payout, 1, true⟩],
        [⟨200000000000, payout, 2, false⟩, ⟨250000000000, payout, 2, true⟩]]) = .ok below ∧
      below.entries.unspent = view.entries.unspent := by
  obtain ⟨top, connected⟩ : ∃ top, connectStack rules (fun _ => .zero 32) view blocks =
      .ok (top, [[⟨250000000000, payout, 1, true⟩],
        [⟨200000000000, payout, 2, false⟩, ⟨250000000000, payout, 2, true⟩]]) := ⟨_, rfl⟩
  obtain ⟨below, undone, restored⟩ :=
    disconnect_restores_iff allUnspent (by decide) connected
  refine ⟨top, below, connected, undone, restored.mpr fun outPoint created => ?_⟩
  have fresh : ∀ outPoint ∈ (stackTransfers rules blocks).flatMap
      fun transfer => transfer.created.map Prod.fst, view.entries.unspent outPoint = none := by
    decide
  exact fresh outPoint (Ledger.mem_of_firstTouch created)

end ModelOS.BlockChain
