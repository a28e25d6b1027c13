import ModelOS.BlockChain.RuleError
import ModelOS.Data.Checked
import ModelOS.Data.Ledger
import ModelOS.Wire.Message
import ModelOS.ZkPow.Verify

namespace ModelOS.BlockChain

open Data Wire ZkPow

/-! How a view and the utxo cache connect the transactions of a block, and how a view
disconnects them. -/

structure SpentTxOut where
  amount : Int64
  pkScript : Bytes
  height : Int32
  isCoinBase : Bool
deriving DecidableEq

structure UtxoEntry extends SpentTxOut where
  spent : Bool
  fresh : Bool
deriving DecidableEq

abbrev UtxoEntries := OutPoint → Option UtxoEntry

structure UtxoViewpoint where
  entries : UtxoEntries
  bestHash : Hash

/-- The transaction identifier and the script package's verdict that an output
can never be spent. -/
structure TxRules where
  txHash : MsgTx → Hash
  isUnspendable : Bytes → Bool

def isCoinBaseTx (tx : MsgTx) : Bool :=
  match tx.txIn with
  | [txIn] =>
    decide (txIn.previousOutPoint.index = 0xffffffff ∧
      txIn.previousOutPoint.hash = FixedBytes.zero 32)
  | _ => false

/-- A view keeps what it spends; the cache forgets an entry that the database
never saw. -/
inductive UtxoStore
  | view
  | cache

def UtxoStore.afterSpend : UtxoStore → UtxoEntry → Option UtxoEntry
  | .view, entry => some { entry with spent := true }
  | .cache, entry => if entry.fresh then none else some { entry with spent := true }

def UtxoStore.missing : UtxoStore → String
  | .view => "view missing input "
  | .cache => "missing input "

def outPointString (outPoint : OutPoint) : String :=
  hashString outPoint.hash ++ ":" ++ toString outPoint.index

section Connect

variable (rules : TxRules)

def txOutputs (tx : MsgTx) : List (OutPoint × TxOut) :=
  tx.txOut.zipIdx.map fun (txOut, index) =>
    (⟨rules.txHash tx, UInt32.ofNat index⟩, txOut)

def spendableOutputs (tx : MsgTx) : List (OutPoint × TxOut) :=
  (txOutputs rules tx).filter fun (_, txOut) => !rules.isUnspendable txOut.pkScript

def newCoin (tx : MsgTx) (blockHeight : Int32) (txOut : TxOut) : SpentTxOut :=
  ⟨txOut.value, txOut.pkScript, blockHeight, isCoinBaseTx tx⟩

/-- Spend the inputs in turn.  An input without an entry stops the loop, and
what was spent before stays spent. -/
def addTxIns (store : UtxoStore) (entries : UtxoEntries) :
    List TxIn → UtxoEntries × Except ChainError (List SpentTxOut)
  | [] => (entries, .ok [])
  | txIn :: rest =>
    match entries txIn.previousOutPoint with
    | none =>
      (entries, .error (.assert (store.missing ++ outPointString txIn.previousOutPoint)))
    | some entry =>
      let (entries, stxos) := addTxIns store
        (Function.update entries txIn.previousOutPoint (store.afterSpend entry)) rest
      (entries, stxos.map (entry.toSpentTxOut :: ·))

def addTxOuts (entries : UtxoEntries) (tx : MsgTx) (blockHeight : Int32) : UtxoEntries :=
  (spendableOutputs rules tx).foldl (fun entries (outPoint, txOut) =>
    Function.update entries outPoint (some
      { newCoin tx blockHeight txOut with spent := false, fresh := true })) entries

def connectTransaction (store : UtxoStore) (entries : UtxoEntries) (tx : MsgTx)
    (blockHeight : Int32) : UtxoEntries × Except ChainError (List SpentTxOut) :=
  if isCoinBaseTx tx then
    (addTxOuts rules entries tx blockHeight, .ok [])
  else
    match addTxIns store entries tx.txIn with
    | (entries, .error error) => (entries, .error error)
    | (entries, .ok stxos) =>
      (addTxOuts rules entries tx blockHeight, .ok stxos)

def connectTransactions (store : UtxoStore) (entries : UtxoEntries) (blockHeight : Int32) :
    List MsgTx → UtxoEntries × Except ChainError (List SpentTxOut)
  | [] => (entries, .ok [])
  | tx :: rest =>
    match connectTransaction rules store entries tx blockHeight with
    | (entries, .error error) => (entries, .error error)
    | (entries, .ok stxos) =>
      let (entries, more) := connectTransactions store entries blockHeight rest
      (entries, more.map (stxos ++ ·))

/-- The transaction of the block that an input refers to, if it stands before `position`. -/
def txInFlight (transactions : List MsgTx) (position : Nat) (txIn : TxIn) : Option MsgTx :=
  ((transactions.zipIdx.reverse.find? fun (originTx, _) =>
      rules.txHash originTx = txIn.previousOutPoint.hash).filter
    fun (_, inFlightIndex) => inFlightIndex < position).map Prod.fst

def originTxs (transactions : List MsgTx) : List MsgTx :=
  transactions.zipIdx.tail.flatMap fun (tx, position) =>
    tx.txIn.filterMap (txInFlight rules transactions position)

/-- What the inputs of a block need.  A view covers the whole set, so nothing is fetched (what
a block creates has an entry already, from `checkBIP0030`); the outputs of the block's own
transactions are added at once. -/
def fetchInputUtxos (entries : UtxoEntries) (transactions : List MsgTx) (blockHeight : Int32) :
    UtxoEntries :=
  (originTxs rules transactions).foldl
    (fun entries originTx => addTxOuts rules entries originTx blockHeight) entries

end Connect

section Disconnect

variable (rules : TxRules)

def countSpentOutputs (transactions : List MsgTx) : Nat :=
  (transactions.tail.map fun tx => tx.txIn.length).sum

/-- An output that a block created no longer exists, which is the same as
spent. -/
def spendCreated (entries : UtxoEntries) (tx : MsgTx) (blockHeight : Int32)
    (isCoinBase : Bool) : UtxoEntries :=
  (spendableOutputs rules tx).foldl (fun entries (outPoint, txOut) =>
    let entry := (entries outPoint).getD
      { amount := txOut.value, pkScript := txOut.pkScript, height := blockHeight,
        isCoinBase, spent := false, fresh := false }
    Function.update entries outPoint (some { entry with spent := true })) entries

/-- Restore inputs from the end of the spend journal, both given in reverse. -/
def restoreInputs (entries : UtxoEntries) :
    List TxIn → List SpentTxOut → UtxoEntries × List SpentTxOut
  | txIn :: rest, stxo :: stxos =>
    restoreInputs (Function.update entries txIn.previousOutPoint
      (some { stxo with spent := false, fresh := false })) rest stxos
  | _, stxos => (entries, stxos)

def disconnectTransaction (blockHeight : Int32)
    (state : UtxoEntries × List SpentTxOut) (tx : MsgTx) (isCoinBase : Bool) :
    UtxoEntries × List SpentTxOut :=
  let entries := spendCreated rules state.1 tx blockHeight isCoinBase
  if isCoinBase then (entries, state.2)
  else restoreInputs entries tx.txIn.reverse state.2

def disconnectTransactions (view : UtxoViewpoint) (block : MsgBlock)
    (blockHeight : Int32) (stxos : List SpentTxOut) : Except ChainError UtxoViewpoint := do
  require (stxos.length = countSpentOutputs block.transactions)
    (.assert ("disconnectTransactions called with bad " ++ "spent transaction out information"))
  let (entries, _) := block.transactions.zipIdx.reverse.foldl
    (fun state (tx, txIdx) =>
      disconnectTransaction rules blockHeight state tx (txIdx == 0))
    (view.entries, stxos.reverse)
  return ⟨entries, block.msgHeader.blockHeader.prevBlock⟩

end Disconnect

def UtxoEntry.unspent (entry : UtxoEntry) : Option SpentTxOut :=
  if entry.spent then none else some entry.toSpentTxOut

def UtxoEntries.unspent (entries : UtxoEntries) : Ledger OutPoint SpentTxOut :=
  fun outPoint => (entries outPoint).bind UtxoEntry.unspent

def UtxoEntries.flush (entries : UtxoEntries) : UtxoEntries := fun outPoint =>
  (entries.unspent outPoint).map fun coin =>
    { coin with spent := false, fresh := false }

@[simp] theorem unspent_flush (entries : UtxoEntries) :
    entries.flush.unspent = entries.unspent := by
  funext outPoint
  simp only [UtxoEntries.flush, UtxoEntries.unspent]
  cases (entries outPoint).bind UtxoEntry.unspent with
  | none => rfl
  | some coin => rfl

theorem unspent_update (entries : UtxoEntries) (outPoint : OutPoint) (entry : Option UtxoEntry) :
    UtxoEntries.unspent (Function.update entries outPoint entry) =
      Function.update entries.unspent outPoint (entry.bind UtxoEntry.unspent) := by
  funext key
  exact Function.apply_update (fun _ entry => Option.bind entry UtxoEntry.unspent)
    entries outPoint entry key

@[simp] theorem afterSpend_unspent (store : UtxoStore) (entry : UtxoEntry) :
    (store.afterSpend entry).bind UtxoEntry.unspent = none := by
  cases store with
  | view => rfl
  | cache =>
    simp only [UtxoStore.afterSpend]
    split
    · rfl
    · rfl

def txTransfer (rules : TxRules) (blockHeight : Int32) (tx : MsgTx) :
    Transfer OutPoint SpentTxOut where
  spent := if isCoinBaseTx tx then [] else tx.txIn.map TxIn.previousOutPoint
  created := (spendableOutputs rules tx).map fun (outPoint, txOut) =>
    (outPoint, newCoin tx blockHeight txOut)

def blockTransfers (rules : TxRules) (blockHeight : Int32)
    (transactions : List MsgTx) : List (Transfer OutPoint SpentTxOut) :=
  transactions.map (txTransfer rules blockHeight)

@[simp] theorem blockTransfers_cons (rules : TxRules) (blockHeight : Int32)
    (tx : MsgTx) (rest : List MsgTx) : blockTransfers rules blockHeight (tx :: rest) =
      txTransfer rules blockHeight tx :: blockTransfers rules blockHeight rest :=
  rfl

section Refinement

variable {rules : TxRules} {store : UtxoStore} {entries after : UtxoEntries}
  {tx : MsgTx} {blockHeight : Int32} {stxos : List SpentTxOut}

theorem unspent_addTxOuts : (addTxOuts rules entries tx blockHeight).unspent =
      entries.unspent.create (txTransfer rules blockHeight tx).created := by
  simp only [addTxOuts, txTransfer, Ledger.create, List.foldl_map]
  induction spendableOutputs rules tx generalizing entries with
  | nil => rfl
  | cons output rest ih =>
    rw [List.foldl_cons, List.foldl_cons, ih, unspent_update]
    rfl

variable {transactions : List MsgTx}

theorem originTxs_subset (rules : TxRules) (transactions : List MsgTx) :
    originTxs rules transactions ⊆ transactions := by
  intro originTx member
  obtain ⟨⟨tx, position⟩, _, refers⟩ := List.mem_flatMap.mp member
  obtain ⟨txIn, _, found⟩ := List.mem_filterMap.mp refers
  obtain ⟨⟨_, index⟩, inFlight, rfl⟩ := Option.map_eq_some_iff.mp found
  have listed := List.mem_of_find?_eq_some (Option.filter_eq_some_iff.mp inFlight).1
  exact List.fst_mem_of_mem_zipIdx (List.mem_reverse.mp listed)

theorem fetchInputUtxos_singleton (tx : MsgTx) :
    fetchInputUtxos rules entries [tx] blockHeight = entries :=
  rfl

/-- The outputs at hand when the first transaction of a block is checked. -/
def fetchedLedger (rules : TxRules) (ledger : Ledger OutPoint SpentTxOut)
    (transactions : List MsgTx) (blockHeight : Int32) : Ledger OutPoint SpentTxOut :=
  (originTxs rules transactions).foldl
    (fun ledger originTx => ledger.create (txTransfer rules blockHeight originTx).created) ledger

theorem unspent_fetchInputUtxos :
    (fetchInputUtxos rules entries transactions blockHeight).unspent =
      fetchedLedger rules entries.unspent transactions blockHeight := by
  rw [fetchInputUtxos, fetchedLedger]
  induction originTxs rules transactions generalizing entries with
  | nil => rfl
  | cons originTx rest ih => rw [List.foldl_cons, List.foldl_cons, ih, unspent_addTxOuts]

/-- What is added is what the block creates. -/
theorem fetchedLedger_eq_some {ledger : Ledger OutPoint SpentTxOut}
    (held : fetchedLedger rules ledger transactions blockHeight outPoint = some coin) :
    ledger outPoint = some coin ∨ ∃ tx ∈ transactions,
      (outPoint, coin) ∈ (txTransfer rules blockHeight tx).created := by
  have subset := originTxs_subset rules transactions
  rw [fetchedLedger] at held
  generalize originTxs rules transactions = origins at held subset
  induction origins generalizing ledger with
  | nil => exact .inl held
  | cons originTx rest ih =>
    obtain ⟨listed, others⟩ := List.cons_subset.mp subset
    rcases ih held others with before | created
    · rcases Ledger.create_eq_some before with earlier | here
      · exact .inl earlier
      · exact .inr ⟨originTx, listed, here⟩
    · exact .inr created

theorem agreeOff_fetchInputUtxos :
    Ledger.AgreeOff (Ledger.createdKeys (blockTransfers rules blockHeight transactions))
      (fetchInputUtxos rules entries transactions blockHeight).unspent entries.unspent := by
  have subset := originTxs_subset rules transactions
  rw [fetchInputUtxos]
  intro outPoint other
  generalize originTxs rules transactions = origins at subset
  induction origins generalizing entries with
  | nil => rfl
  | cons originTx rest ih =>
    obtain ⟨listed, others⟩ := List.cons_subset.mp subset
    rw [List.foldl_cons, ih others, unspent_addTxOuts, Ledger.create_apply_of_not_mem]
    exact fun created => other (List.mem_flatMap.mpr
      ⟨_, List.mem_map_of_mem listed, created⟩)

theorem unspent_addTxIns
    (connected : addTxIns store entries inputs = (after, .ok stxos)) : after.unspent =
      entries.unspent.spend (inputs.map TxIn.previousOutPoint) := by
  induction inputs generalizing entries stxos with
  | nil =>
    cases connected
    rfl
  | cons txIn rest ih =>
    rw [addTxIns] at connected
    split at connected
    · cases connected
    · next entry held =>
      obtain ⟨rfl, mapped⟩ := Prod.mk.inj connected
      cases result : (addTxIns store (Function.update entries
          txIn.previousOutPoint (store.afterSpend entry)) rest).2 with
      | error error =>
        rw [result] at mapped
        cases mapped
      | ok others =>
        rw [ih (Prod.ext rfl result), unspent_update, afterSpend_unspent]
        rfl

theorem unspent_connectTransaction
    (connected : connectTransaction rules store entries tx blockHeight = (after, .ok stxos)) :
    after.unspent = entries.unspent.apply (txTransfer rules blockHeight tx) := by
  rw [connectTransaction] at connected
  split at connected
  · next isCoinBase =>
    cases connected
    rw [unspent_addTxOuts, Ledger.apply]
    simp only [txTransfer, isCoinBase, if_true]
    rfl
  · next notCoinBase =>
    split at connected
    · cases connected
    · next middle spentOutputs spent =>
      cases connected
      rw [unspent_addTxOuts, unspent_addTxIns spent, Ledger.apply]
      simp only [txTransfer, notCoinBase]
      rfl

theorem unspent_connectTransactions
    (connected : connectTransactions rules store entries blockHeight transactions =
      (after, .ok stxos)) :
    after.unspent = entries.unspent.applyAll (blockTransfers rules blockHeight transactions) := by
  induction transactions generalizing entries stxos with
  | nil =>
    cases connected
    rfl
  | cons tx rest ih =>
    rw [connectTransactions] at connected
    split at connected
    · cases connected
    · next middle first spent =>
      obtain ⟨rfl, mapped⟩ := Prod.mk.inj connected
      cases result : (connectTransactions rules store middle blockHeight rest).2 with
      | error error =>
        rw [result] at mapped
        cases mapped
      | ok others =>
        rw [ih (Prod.ext rfl result), unspent_connectTransaction spent]
        rfl

theorem addTxIns_of_available {inputs : List TxIn}
    (nodup : (inputs.map TxIn.previousOutPoint).Nodup)
    (available : ∀ outPoint ∈ inputs.map TxIn.previousOutPoint,
      ∃ coin, entries.unspent outPoint = some coin) : (addTxIns store entries inputs).2 =
      .ok ((inputs.map TxIn.previousOutPoint).filterMap entries.unspent) := by
  induction inputs generalizing entries with
  | nil => rfl
  | cons txIn rest ih =>
    rw [List.map_cons] at nodup available ⊢
    obtain ⟨absent, nodup⟩ := List.nodup_cons.mp nodup
    obtain ⟨coin, unspent⟩ := available _ (.head _)
    obtain ⟨entry, held, isUnspent⟩ := Option.bind_eq_some_iff.mp unspent
    have unchanged : ∀ outPoint ∈ rest.map TxIn.previousOutPoint,
        UtxoEntries.unspent (Function.update entries txIn.previousOutPoint
          (store.afterSpend entry)) outPoint = entries.unspent outPoint := by
      intro outPoint member
      rw [unspent_update, Function.update_of_ne]
      rintro rfl
      exact absent member
    have spent := @ih (Function.update entries txIn.previousOutPoint
      (store.afterSpend entry)) nodup (by
        intro outPoint member
        rw [unchanged outPoint member]
        exact available outPoint (.tail _ member))
    have recorded : coin = entry.toSpentTxOut := by
      rw [UtxoEntry.unspent] at isUnspent
      split at isUnspent
      · cases isUnspent
      · exact (Option.some.inj isUnspent).symm
    rw [addTxIns, held]
    simp only [spent, Except.map, List.filterMap_cons_some unspent, recorded]
    rw [List.filterMap_congr unchanged]

theorem connectTransaction_of_connects
    (connects : Ledger.Connects (txTransfer rules blockHeight tx) entries.unspent) :
    (connectTransaction rules store entries tx blockHeight).2 =
      .ok (entries.unspent.coins (txTransfer rules blockHeight tx)) := by
  rw [connectTransaction]
  split
  · next isCoinBase => simp [Ledger.coins, txTransfer, isCoinBase]
  · next notCoinBase =>
    have inputs : (txTransfer rules blockHeight tx).spent = tx.txIn.map TxIn.previousOutPoint := by
      simp only [txTransfer, notCoinBase]
      rfl
    obtain ⟨nodup, available, _⟩ := connects
    rw [inputs] at nodup available
    have spent := @addTxIns_of_available store entries tx.txIn nodup available
    split
    · next failed =>
      rw [failed] at spent
      cases spent
    · next middle stxos connected =>
      rw [connected] at spent
      rw [spent, Ledger.coins, inputs]

theorem connectTransactions_of_connects
    (connects : Ledger.ConnectsAll (blockTransfers rules blockHeight transactions)
      entries.unspent) : (connectTransactions rules store entries blockHeight transactions).2 =
      .ok (entries.unspent.coinsAll (blockTransfers rules blockHeight transactions)) := by
  induction transactions generalizing entries with
  | nil => rfl
  | cons tx rest ih =>
    have first := @connectTransaction_of_connects rules store entries tx blockHeight connects.1
    rw [connectTransactions]
    split
    · next failed =>
      rw [failed] at first
      cases first
    · next middle stxos connected =>
      rw [connected] at first
      have moved := unspent_connectTransaction connected
      have others := @ih middle (by
        rw [moved]
        exact connects.2)
      simp only [others, Except.map]
      rw [moved, Except.ok.inj first]
      rfl

/-- Every outpoint that the first has an entry for, the second has one for too. -/
def UtxoEntries.Within (entries more : UtxoEntries) : Prop :=
  ∀ outPoint, (entries outPoint).isSome = true → (more outPoint).isSome = true

namespace UtxoEntries.Within

variable {more : UtxoEntries}

theorem put (entries : UtxoEntries) (outPoint : OutPoint) (entry : UtxoEntry) :
    Within entries (Function.update entries outPoint (some entry)) := by
  intro key held
  rcases eq_or_ne key outPoint with rfl | distinct
  · rw [Function.update_self]
    rfl
  · rwa [Function.update_of_ne distinct]

theorem update (within : entries.Within more) (outPoint : OutPoint) (entry other : UtxoEntry) :
    Within (Function.update entries outPoint (some entry))
      (Function.update more outPoint (some other)) := by
  intro key held
  rcases eq_or_ne key outPoint with rfl | distinct
  · rw [Function.update_self]
    rfl
  · rw [Function.update_of_ne distinct] at held
    exact put more outPoint other key (within key held)

theorem addTxOuts (within : entries.Within more) :
    Within (addTxOuts rules entries tx blockHeight) (addTxOuts rules more tx blockHeight) := by
  simp only [BlockChain.addTxOuts]
  induction spendableOutputs rules tx generalizing entries more with
  | nil => exact within
  | cons output rest ih => exact ih (within.update _ _ _)

theorem ofAddTxOuts (within : entries.Within more) :
    Within entries (BlockChain.addTxOuts rules more tx blockHeight) := by
  simp only [BlockChain.addTxOuts]
  induction spendableOutputs rules tx generalizing more with
  | nil => exact within
  | cons output rest ih => exact ih fun key held => put more _ _ key (within key held)

theorem fetchInputUtxos (entries : UtxoEntries) :
    entries.Within (fetchInputUtxos rules entries transactions blockHeight) := by
  have within : ∀ {more : UtxoEntries}, entries.Within more →
      entries.Within ((originTxs rules transactions).foldl (fun entries originTx =>
        BlockChain.addTxOuts rules entries originTx blockHeight) more) := by
    induction originTxs rules transactions with
    | nil => exact id
    | cons originTx rest ih => exact fun within => ih within.ofAddTxOuts
  exact within fun _ => id

theorem addTxIns (within : entries.Within more)
    (connected : (addTxIns .view entries inputs).2 = .ok stxos) :
    ∃ others, (BlockChain.addTxIns .view more inputs).2 = .ok others ∧
      Within (BlockChain.addTxIns .view entries inputs).1
        (BlockChain.addTxIns .view more inputs).1 := by
  induction inputs generalizing entries more stxos with
  | nil => exact ⟨[], rfl, within⟩
  | cons txIn rest ih =>
    have covered := within txIn.previousOutPoint
    rw [BlockChain.addTxIns] at connected
    simp only [BlockChain.addTxIns]
    cases held : entries txIn.previousOutPoint with
    | none =>
      rw [held] at connected
      cases connected
    | some entry =>
      rw [held] at connected covered
      obtain ⟨other, present⟩ := Option.isSome_iff_exists.mp (covered rfl)
      rw [present]
      cases result : (BlockChain.addTxIns .view (Function.update entries txIn.previousOutPoint
          (UtxoStore.view.afterSpend entry)) rest).2 with
      | error error =>
        simp only [result] at connected
        cases connected
      | ok _ =>
        obtain ⟨others, succeeds, after⟩ := ih (within.update _ _ _) result
        exact ⟨_, congrArg (Except.map (other.toSpentTxOut :: ·)) succeeds, after⟩

theorem connectTransaction (within : entries.Within more)
    (connected : connectTransaction rules .view entries tx blockHeight = (after, .ok stxos)) :
    ∃ others final, BlockChain.connectTransaction rules .view more tx blockHeight =
      (final, .ok others) ∧ after.Within final := by
  rw [BlockChain.connectTransaction] at connected ⊢
  split at connected
  · next isCoinBase =>
    cases connected
    rw [if_pos isCoinBase]
    exact ⟨_, _, rfl, within.addTxOuts⟩
  · next notCoinBase =>
    rw [if_neg notCoinBase]
    split at connected
    · cases connected
    · next middle stxos spent =>
      cases connected
      obtain ⟨others, succeeds, after⟩ := within.addTxIns (congrArg Prod.snd spent)
      rw [spent] at after
      rw [show BlockChain.addTxIns .view more tx.txIn = (_, .ok others) from
        Prod.ext rfl succeeds]
      exact ⟨_, _, rfl, after.addTxOuts⟩

theorem connectTransactions (within : entries.Within more)
    (connected : (connectTransactions rules .view entries blockHeight transactions).2 =
      .ok stxos) :
    ∃ others, (BlockChain.connectTransactions rules .view more blockHeight transactions).2 =
      .ok others := by
  induction transactions generalizing entries more stxos with
  | nil => exact ⟨[], rfl⟩
  | cons tx rest ih =>
    rw [BlockChain.connectTransactions] at connected
    split at connected
    · cases connected
    · next middle first spent =>
      obtain ⟨others, final, succeeds, after⟩ := within.connectTransaction spent
      cases result : (BlockChain.connectTransactions rules .view middle blockHeight rest).2 with
      | error error =>
        simp only [result] at connected
        cases connected
      | ok _ =>
        obtain ⟨more, connects⟩ := ih after result
        rw [BlockChain.connectTransactions, succeeds]
        exact ⟨_, congrArg (Except.map (others ++ ·)) connects⟩

end UtxoEntries.Within

theorem unspent_spendCreated :
    (spendCreated rules entries tx blockHeight isCoinBase).unspent = entries.unspent.spend
        ((txTransfer rules blockHeight tx).created.map Prod.fst) := by
  simp only [spendCreated, txTransfer, Ledger.spend, List.map_map, List.foldl_map]
  induction spendableOutputs rules tx generalizing entries with
  | nil => rfl
  | cons output rest ih =>
    rw [List.foldl_cons, List.foldl_cons, ih, unspent_update]
    rfl

theorem restoreInputs_append {inputs : List TxIn} {coins others : List SpentTxOut}
    (count : coins.length = inputs.length) :
    (restoreInputs entries inputs (coins ++ others)).2 = others ∧
      (restoreInputs entries inputs (coins ++ others)).1.unspent = entries.unspent.create
          ((inputs.map TxIn.previousOutPoint).zip coins) := by
  induction inputs generalizing entries coins with
  | nil =>
    rw [List.length_eq_zero_iff.mp count]
    exact ⟨rfl, rfl⟩
  | cons txIn rest ih =>
    cases coins with
    | nil => cases count
    | cons coin coins =>
      obtain ⟨left, restored⟩ := @ih (Function.update entries txIn.previousOutPoint
          (some { coin with spent := false, fresh := false })) coins (Nat.succ.inj count)
      refine ⟨left, restored.trans ?_⟩
      rw [unspent_update]
      rfl

theorem disconnectTransaction_append {front coins : List SpentTxOut}
    (notCoinBase : isCoinBaseTx tx = false) (count : coins.length = tx.txIn.length) :
    (disconnectTransaction rules blockHeight (entries, (front ++ coins).reverse)
        tx false).2 = front.reverse ∧ (disconnectTransaction rules blockHeight
          (entries, (front ++ coins).reverse) tx false).1.unspent =
        entries.unspent.undo (txTransfer rules blockHeight tx) coins := by
  rw [List.reverse_append]
  obtain ⟨left, restored⟩ := @restoreInputs_append
    (spendCreated rules entries tx blockHeight false) tx.txIn.reverse
    coins.reverse front.reverse (by simpa using count)
  refine ⟨left, restored.trans ?_⟩
  have inputs : (txTransfer rules blockHeight tx).spent = tx.txIn.map TxIn.previousOutPoint := by
    simp only [txTransfer, notCoinBase]
    rfl
  rw [unspent_spendCreated, Ledger.undo, inputs, List.map_reverse,
    List.zip_eq_zipWith, List.zip_eq_zipWith, List.reverse_zipWith (by simpa using count.symm)]

theorem disconnect_reverse {front coins : List SpentTxOut}
    (notCoinBase : ∀ tx ∈ transactions, isCoinBaseTx tx = false)
    (count : coins.length = (transactions.map fun tx => tx.txIn.length).sum) :
    ∃ after, transactions.reverse.foldl (fun state tx =>
        disconnectTransaction rules blockHeight state tx false)
        (entries, (front ++ coins).reverse) = (after, front.reverse) ∧
      UtxoEntries.unspent after = entries.unspent.undoAll
        (blockTransfers rules blockHeight transactions) coins := by
  induction transactions generalizing entries front coins with
  | nil =>
    rw [List.length_eq_zero_iff.mp count, List.append_nil]
    exact ⟨entries, rfl, rfl⟩
  | cons tx rest ih =>
    have here := notCoinBase tx (.head _)
    rw [List.map_cons, List.sum_cons] at count
    have split : front ++ coins =
        (front ++ coins.take tx.txIn.length) ++ coins.drop tx.txIn.length := by
      rw [List.append_assoc, List.take_append_drop]
    obtain ⟨middle, undone, ledger⟩ := @ih entries
      (front ++ coins.take tx.txIn.length) (coins.drop tx.txIn.length)
      (fun tx member => notCoinBase tx (.tail _ member)) (by rw [List.length_drop]; omega)
    obtain ⟨left, restored⟩ := @disconnectTransaction_append rules middle tx
      blockHeight front (coins.take tx.txIn.length) here (by rw [List.length_take]; omega)
    refine ⟨_, ?_, restored.trans ?_⟩
    · rw [List.reverse_cons, List.foldl_append, split, undone]
      exact Prod.ext rfl left
    · have inputs : (txTransfer rules blockHeight tx).spent.length = tx.txIn.length := by
        simp [txTransfer, here]
      rw [ledger, blockTransfers_cons, Ledger.undoAll, inputs]

theorem disconnect_zipIdx (coinbase : MsgTx) (others : List MsgTx)
    (state : UtxoEntries × List SpentTxOut) :
    (coinbase :: others).zipIdx.reverse.foldl (fun state (tx, txIdx) =>
        disconnectTransaction rules blockHeight state tx (txIdx == 0)) state =
      disconnectTransaction rules blockHeight (others.reverse.foldl (fun state tx =>
          disconnectTransaction rules blockHeight state tx false) state)
        coinbase true := by
  have flags : (others.zipIdx (0 + 1)).reverse.foldl (fun state (tx, txIdx) =>
      disconnectTransaction rules blockHeight state tx (txIdx == 0)) state =
      ((others.zipIdx (0 + 1)).reverse.map Prod.fst).foldl (fun state tx =>
        disconnectTransaction rules blockHeight state tx false) state := by
    rw [List.foldl_map]
    refine List.foldl_ext _ _ _ fun state entry member => ?_
    have position := List.le_snd_of_mem_zipIdx (List.mem_reverse.mp member)
    have later : (entry.2 == 0) = false := by
      simp only [beq_eq_false_iff_ne]
      omega
    change disconnectTransaction rules blockHeight state entry.1 (entry.2 == 0) = _
    rw [later]
  rw [List.zipIdx_cons, List.reverse_cons, List.foldl_append, flags,
    List.map_reverse, List.zipIdx_map_fst]
  rfl

theorem sum_spent_blockTransfers
    (isCoinBase : isCoinBaseTx coinbase = true)
    (notCoinBase : ∀ tx ∈ others, isCoinBaseTx tx = false) :
    ((blockTransfers rules blockHeight (coinbase :: others)).map
      fun transfer => transfer.spent.length).sum =
      countSpentOutputs (coinbase :: others) := by
  have coinbaseCount : (txTransfer rules blockHeight coinbase).spent.length = 0 := by
    simp [txTransfer, isCoinBase]
  rw [blockTransfers_cons, List.map_cons, List.sum_cons, coinbaseCount,
    Nat.zero_add, blockTransfers, List.map_map]
  refine congrArg List.sum (List.map_congr_left fun tx member => ?_)
  simp [txTransfer, notCoinBase tx member]

theorem disconnectTransactions_of_count {view : UtxoViewpoint} {block : MsgBlock}
    {coinbase : MsgTx} {others : List MsgTx}
    (transactions : block.transactions = coinbase :: others)
    (isCoinBase : isCoinBaseTx coinbase = true)
    (notCoinBase : ∀ tx ∈ others, isCoinBaseTx tx = false)
    (count : stxos.length = countSpentOutputs block.transactions) :
    ∃ below, disconnectTransactions rules view block blockHeight stxos = .ok below ∧
      below.entries.unspent = view.entries.unspent.undoAll
        (blockTransfers rules blockHeight block.transactions) stxos ∧
      below.bestHash = block.msgHeader.blockHeader.prevBlock := by
  have others_count := count
  rw [transactions] at others_count
  obtain ⟨middle, undone, lower⟩ := @disconnect_reverse rules view.entries
    blockHeight others [] stxos notCoinBase others_count
  rw [List.nil_append] at undone
  refine ⟨⟨(disconnectTransaction rules blockHeight (middle, []) coinbase true).1,
    block.msgHeader.blockHeader.prevBlock⟩, ?_, ?_, rfl⟩
  · rw [disconnectTransactions]
    simp only [bind_eq_ok, require_eq_ok]
    refine ⟨(), count, ?_⟩
    rw [transactions, disconnect_zipIdx, undone]
    rfl
  · have coinbaseSpent : (txTransfer rules blockHeight coinbase).spent = [] := by
      simp [txTransfer, isCoinBase]
    rw [transactions]
    simp only [blockTransfers_cons, Ledger.undoAll, coinbaseSpent,
      List.length_nil, List.drop_zero, List.take_zero, Ledger.undo,
      List.zip_nil_left, List.reverse_nil]
    change (spendCreated rules middle coinbase blockHeight true).unspent = _
    rw [unspent_spendCreated, lower]
    rfl

theorem disconnectTransactions_of_connects {view : UtxoViewpoint} {block : MsgBlock}
    (transactions : block.transactions = coinbase :: others)
    (isCoinBase : isCoinBaseTx coinbase = true)
    (notCoinBase : ∀ tx ∈ others, isCoinBaseTx tx = false)
    (connects : Ledger.ConnectsAll (blockTransfers rules blockHeight block.transactions) ledger)
    (connected : view.entries.unspent = ledger.applyAll
      (blockTransfers rules blockHeight block.transactions)) :
    ∃ below, disconnectTransactions rules
        ⟨fetchInputUtxos rules view.entries block.transactions blockHeight, view.bestHash⟩
        block blockHeight
        (ledger.coinsAll (blockTransfers rules blockHeight block.transactions)) = .ok below ∧
      below.entries.unspent = ledger ∧ below.bestHash = block.msgHeader.blockHeader.prevBlock := by
  have count := connects.length_coinsAll
  rw [transactions, sum_spent_blockTransfers isCoinBase notCoinBase, ← transactions]
    at count
  obtain ⟨below, undone, lower, best⟩ :=
    disconnectTransactions_of_count transactions isCoinBase notCoinBase count
  refine ⟨below, undone, ?_, best⟩
  rw [lower]
  apply connects.undoAll_of_agreeOff
  rw [← connected]
  exact agreeOff_fetchInputUtxos

end Refinement

end ModelOS.BlockChain
