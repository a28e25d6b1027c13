import ModelOS.BlockChain.Validate

namespace ModelOS.BlockChain

open Data Wire ZkPow

/-! The verdict of `checkConnectBlock` depends on the unspent outputs only. -/

/-- What an entry tells of its output. -/
def UtxoEntry.content (entry : UtxoEntry) : SpentTxOut × Bool :=
  (entry.toSpentTxOut, entry.spent)

def SameEntry (first second : UtxoEntries) (outPoint : OutPoint) : Prop :=
  (first outPoint).map UtxoEntry.content = (second outPoint).map UtxoEntry.content

def spentOutPoints (tx : MsgTx) : List OutPoint :=
  if isCoinBaseTx tx then [] else tx.txIn.map TxIn.previousOutPoint

/-- Of a view the rules of other packages read the entries of the inputs only. -/
structure ReadsInputs (rules : ChainRules) : Prop where
  checkInferenceBountySpends : ∀ tx node first second,
    (∀ outPoint ∈ spentOutPoints tx, SameEntry first second outPoint) →
      rules.checkInferenceBountySpends tx node first =
        rules.checkInferenceBountySpends tx node second
  sequenceLockActive : ∀ node tx first second,
    (∀ outPoint ∈ spentOutPoints tx, SameEntry first second outPoint) →
      rules.sequenceLockActive node tx first = rules.sequenceLockActive node tx second
  checkBlockScripts : ∀ block first second,
    (∀ tx ∈ block.transactions, ∀ outPoint ∈ spentOutPoints tx,
      SameEntry first second outPoint) →
      rules.checkBlockScripts block first = rules.checkBlockScripts block second

/-- The same outputs are unspent, and the entries of the listed ones are the same. -/
structure Alike (listed : Set OutPoint) (first second : UtxoEntries) : Prop where
  unspent : first.unspent = second.unspent
  same : ∀ outPoint ∈ listed, SameEntry first second outPoint

section Alike

variable {rules : ChainRules} {node : BlockNode} {listed more : Set OutPoint}
  {first second : UtxoEntries} {tx : MsgTx}

theorem sameEntry_of_unspent (held : first.unspent outPoint = some coin)
    (alsoHeld : second.unspent outPoint = some coin) : SameEntry first second outPoint := by
  have content : ∀ {entries : UtxoEntries}, entries.unspent outPoint = some coin →
      (entries outPoint).map UtxoEntry.content = some (coin, false) := by
    intro entries held
    obtain ⟨entry, found, unspent⟩ := Option.bind_eq_some_iff.mp held
    rw [UtxoEntry.unspent] at unspent
    split at unspent
    · cases unspent
    · next notSpent =>
      cases unspent
      rw [found, Option.map_some, UtxoEntry.content, Bool.eq_false_of_not_eq_true notSpent]
  exact (content held).trans (content alsoHeld).symm

namespace Alike

theorem union (alike : Alike listed first second)
    (held : ∀ outPoint ∈ more, ∃ coin, first.unspent outPoint = some coin) :
    Alike (listed ∪ more) first second := by
  refine ⟨alike.unspent, ?_⟩
  rintro outPoint (known | new)
  · exact alike.same outPoint known
  · obtain ⟨coin, unspent⟩ := held outPoint new
    exact sameEntry_of_unspent unspent (alike.unspent ▸ unspent)

theorem update (alike : Alike listed first second) {entry other : UtxoEntry}
    (content : entry.content = other.content) (outPoint : OutPoint) :
    Alike listed (Function.update first outPoint (some entry))
      (Function.update second outPoint (some other)) := by
  constructor
  · obtain ⟨coin, spent, fresh⟩ := entry
    obtain ⟨otherCoin, otherSpent, otherFresh⟩ := other
    obtain ⟨rfl, rfl⟩ := Prod.mk.inj content
    rw [unspent_update, unspent_update, alike.unspent]
    rfl
  · intro key member
    rw [SameEntry]
    rcases eq_or_ne key outPoint with rfl | apart
    · rw [Function.update_self, Function.update_self, Option.map_some, Option.map_some, content]
    · rw [Function.update_of_ne apart, Function.update_of_ne apart]
      exact alike.same key member

theorem addTxOuts (alike : Alike listed first second) (blockHeight : Int32) :
    Alike listed (addTxOuts rules.toTxRules first tx blockHeight)
      (addTxOuts rules.toTxRules second tx blockHeight) := by
  simp only [BlockChain.addTxOuts]
  induction spendableOutputs rules.toTxRules tx generalizing first second with
  | nil => exact alike
  | cons output rest ih => exact ih (alike.update rfl output.1)

theorem addTxIns (alike : Alike listed first second) {inputs : List TxIn}
    (known : ∀ txIn ∈ inputs, txIn.previousOutPoint ∈ listed) :
    (addTxIns .view first inputs).2 = (addTxIns .view second inputs).2 ∧
      Alike listed (BlockChain.addTxIns .view first inputs).1
        (BlockChain.addTxIns .view second inputs).1 := by
  induction inputs generalizing first second with
  | nil => exact ⟨rfl, alike⟩
  | cons txIn rest ih =>
    have same := alike.same _ (known txIn (.head _))
    rw [SameEntry] at same
    simp only [BlockChain.addTxIns]
    cases held : first txIn.previousOutPoint with
    | none =>
      rw [held, Option.map_none, eq_comm, Option.map_eq_none_iff] at same
      rw [same]
      exact ⟨rfl, alike⟩
    | some entry =>
      rw [held, Option.map_some, eq_comm, Option.map_eq_some_iff] at same
      obtain ⟨other, alsoHeld, content⟩ := same
      rw [alsoHeld]
      have coin : other.toSpentTxOut = entry.toSpentTxOut := (Prod.mk.inj content).1
      have spent := @Alike.update listed first second alike { entry with spent := true }
        { other with spent := true } (congrArg (·, true) coin.symm) txIn.previousOutPoint
      obtain ⟨results, alike⟩ := ih spent fun txIn member => known txIn (.tail _ member)
      exact ⟨congrArg₂ (fun coin result => Except.map (coin :: ·) result) coin.symm results, alike⟩

theorem fetchInputUtxos (alike : Alike listed first second) (transactions : List MsgTx)
    (blockHeight : Int32) :
    Alike listed (fetchInputUtxos rules.toTxRules first transactions blockHeight)
      (fetchInputUtxos rules.toTxRules second transactions blockHeight) := by
  simp only [BlockChain.fetchInputUtxos]
  induction originTxs rules.toTxRules transactions generalizing first second with
  | nil => exact alike
  | cons originTx rest ih => exact ih (alike.addTxOuts _)

theorem connectTransaction (alike : Alike listed first second)
    (known : ∀ outPoint ∈ spentOutPoints tx, outPoint ∈ listed) (blockHeight : Int32) :
    (connectTransaction rules.toTxRules .view first tx blockHeight).2 =
        (connectTransaction rules.toTxRules .view second tx blockHeight).2 ∧
      Alike listed (BlockChain.connectTransaction rules.toTxRules .view first tx blockHeight).1
        (BlockChain.connectTransaction rules.toTxRules .view second tx blockHeight).1 := by
  simp only [BlockChain.connectTransaction, spentOutPoints] at known ⊢
  split
  · exact ⟨rfl, alike.addTxOuts _⟩
  · next notCoinBase =>
    rw [if_neg notCoinBase] at known
    obtain ⟨results, alike⟩ := alike.addTxIns fun txIn member =>
      known _ (List.mem_map_of_mem member)
    cases spent : BlockChain.addTxIns .view first tx.txIn with
    | mk entries result =>
      cases alsoSpent : BlockChain.addTxIns .view second tx.txIn with
      | mk others verdict =>
        rw [spent, alsoSpent] at results alike
        obtain rfl : result = verdict := results
        cases result with
        | error error => exact ⟨rfl, alike⟩
        | ok stxos => exact ⟨rfl, alike.addTxOuts _⟩

end Alike

theorem map_lookupUnspent (entries : UtxoEntries) (outPoint : OutPoint) :
    (lookupUnspent entries outPoint).map UtxoEntry.toSpentTxOut = entries.unspent outPoint := by
  cases looked : lookupUnspent entries outPoint with
  | none => exact (lookupUnspent_eq_none looked).symm
  | some entry => exact (lookupUnspent_eq_some looked).symm

theorem checkTransactionInput_congr (unspent : first.unspent = second.unspent) :
    checkTransactionInput rules tx txHeight first =
      checkTransactionInput rules tx txHeight second := by
  funext total input
  have coins := (map_lookupUnspent first input.1.previousOutPoint).trans
    ((congrFun unspent _).trans (map_lookupUnspent second _).symm)
  simp only [checkTransactionInput]
  cases looked : lookupUnspent first input.1.previousOutPoint with
  | none =>
    rw [looked, Option.map_none, eq_comm, Option.map_eq_none_iff] at coins
    rw [coins]
  | some entry =>
    rw [looked, Option.map_some, eq_comm, Option.map_eq_some_iff] at coins
    obtain ⟨other, alsoLooked, coin⟩ := coins
    rw [alsoLooked]
    obtain ⟨_, _, _⟩ := other
    obtain ⟨_, _, _⟩ := entry
    cases coin
    rfl

theorem checkBIP0030_congr (unspent : first.unspent = second.unspent)
    (checked : checkBIP0030 rules block first = .ok ()) :
    checkBIP0030 rules block second = .ok () := by
  refine checkBIP0030_eq_ok fun tx member output listed => ?_
  rw [← unspent]
  exact unspent_of_checkBIP0030 checked member _ (List.mem_map_of_mem listed)

theorem Alike.checkConnectTransaction (alike : Alike listed first second)
    (reads : ReadsInputs rules)
    (checked : checkConnectTransaction rules node (first, fees) tx = .ok (after, total)) :
    ∃ other, checkConnectTransaction rules node (second, fees) tx = .ok (other, total) ∧
      Alike (listed ∪ {outPoint | outPoint ∈ spentOutPoints tx}) after other := by
  have alike := alike.union (available_of_checkConnectTransaction checked)
  have known : ∀ outPoint ∈ spentOutPoints tx,
      outPoint ∈ listed ∪ {outPoint | outPoint ∈ spentOutPoints tx} :=
    fun outPoint member => .inr member
  obtain ⟨results, after⟩ := @Alike.connectTransaction rules _ _ _ tx alike known node.height
  have bounties := reads.checkInferenceBountySpends tx node first second
    fun outPoint member => alike.same outPoint (known outPoint member)
  simp only [BlockChain.checkConnectTransaction, checkTransactionInputsWithIssuance,
    checkTransactionInput_congr alike.unspent, bounties, results, bind_eq_ok, pure_eq_ok,
    Prod.mk.injEq] at checked ⊢
  obtain ⟨issued, issues, fee, spends, _, released, _, bounded, stxos, connected, rfl, rfl⟩ :=
    checked
  exact ⟨_, ⟨issued, issues, fee, spends, _, released, _, bounded, stxos, connected, rfl, rfl⟩,
    after⟩

theorem Alike.checkConnectTransactions {transactions : List MsgTx}
    (alike : Alike listed first second) (reads : ReadsInputs rules)
    (checked : transactions.foldlM (BlockChain.checkConnectTransaction rules node) (first, fees) =
      .ok (after, total)) :
    ∃ other, transactions.foldlM (BlockChain.checkConnectTransaction rules node) (second, fees) =
        .ok (other, total) ∧
      Alike (listed ∪ {outPoint | ∃ tx ∈ transactions, outPoint ∈ spentOutPoints tx})
        after other := by
  induction transactions generalizing listed first second fees with
  | nil =>
    cases checked
    exact ⟨second, rfl, alike.union (by rintro _ ⟨_, ⟨⟩, _⟩)⟩
  | cons tx rest ih =>
    rw [List.foldlM_cons, bind_eq_ok] at checked
    obtain ⟨⟨middle, middleFees⟩, here, checked⟩ := checked
    obtain ⟨otherMiddle, alsoHere, alike⟩ := alike.checkConnectTransaction reads here
    obtain ⟨other, alsoChecked, alike⟩ := ih alike checked
    refine ⟨other, ?_, alike.unspent, ?_⟩
    · rw [List.foldlM_cons, alsoHere]
      exact alsoChecked
    · rintro outPoint (known | ⟨spender, member, spends⟩)
      · exact alike.same outPoint (.inl (.inl known))
      · rcases List.mem_cons.mp member with rfl | later
        · exact alike.same outPoint (.inl (.inr spends))
        · exact alike.same outPoint (.inr ⟨spender, later, spends⟩)

end Alike

theorem checkConnectBlock_of_unspent_eq (reads : ReadsInputs rules) {view other : UtxoViewpoint}
    (best : view.bestHash = other.bestHash) (unspent : view.entries.unspent = other.entries.unspent)
    (checked : checkConnectBlock rules node view = .ok after) :
    ∃ final, checkConnectBlock rules node other = .ok final := by
  simp only [checkConnectBlock, bind_eq_ok, require_eq_ok, pure_eq_ok] at checked
  obtain ⟨_, notGenesis, _, isBest, _, overwrites, ⟨entries, fees⟩, looped, _, pays, _, locks, _,
    scripts, _⟩ := checked
  have alike : Alike ∅ view.entries other.entries := ⟨unspent, by rintro _ ⟨⟩⟩
  obtain ⟨others, alsoLooped, alike⟩ :=
    (alike.fetchInputUtxos node.block.transactions node.height).checkConnectTransactions
      reads looped
  have same : ∀ tx ∈ node.block.transactions, ∀ outPoint ∈ spentOutPoints tx,
      SameEntry entries others outPoint :=
    fun tx member outPoint spends => alike.same outPoint (.inr ⟨tx, member, spends⟩)
  rw [reads.checkBlockScripts node.block entries others same] at scripts
  refine ⟨⟨others, node.hash rules.sha256d⟩, ?_⟩
  simp only [checkConnectBlock, bind_eq_ok, require_eq_ok]
  refine ⟨(), notGenesis, (), best.symm.trans isBest, (), checkBIP0030_congr unspent overwrites,
    (others, fees), alsoLooped, (), pays, (), ?_, (), scripts, rfl⟩
  rw [forM_eq_ok] at locks ⊢
  intro tx member
  rw [← reads.sequenceLockActive node tx entries others (same tx member)]
  exact locks tx member

end ModelOS.BlockChain
