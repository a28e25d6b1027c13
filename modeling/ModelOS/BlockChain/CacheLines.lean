import ModelOS.BlockChain.UtxoCache

namespace ModelOS.BlockChain.UtxoCache

open Data Wire

/-! What each operation does to the cached lines, whichever maps they stand in. -/

def lines (cache : UtxoCache) : Lines OutPoint SpentTxOut :=
  cache.cachedEntries.get

def logical (cache : UtxoCache) (db : ChainDb) : Ledger OutPoint SpentTxOut :=
  cache.lines.overlay db.utxos

variable {memory : MemoryRules} {rules : TxRules} {cache : UtxoCache}
  {utxos : Ledger OutPoint SpentTxOut} {readFails : OutPoint → Bool}

@[simp] theorem lines_put (outPoint : OutPoint) (entry : Option CacheEntry) :
    (cache.put memory outPoint entry).lines = Function.update cache.lines outPoint (some entry) :=
  MapSlice.get_put ..

theorem mapM_dbFetchUtxoEntry (outPoints : List OutPoint) :
    outPoints.mapM (dbFetchUtxoEntry utxos readFails) =
      if outPoints.any readFails then .error .database
      else .ok (outPoints.map fun outPoint => (utxos outPoint).map Line.clean) := by
  induction outPoints with
  | nil => rfl
  | cons outPoint rest ih =>
    rw [List.mapM_cons, ih, dbFetchUtxoEntry, List.any_cons]
    cases readFails outPoint with
    | true => rfl
    | false =>
      cases rest.any readFails with
      | true => rfl
      | false => rfl

theorem lines_foldl_put (outPoints : List OutPoint)
    (read : OutPoint → Option CacheEntry) (key : OutPoint) :
    ((outPoints.map fun outPoint => (outPoint, read outPoint)).foldl
      (fun cache (outPoint, entry) => put memory cache outPoint entry) cache).lines key =
      if key ∈ outPoints then some (read key) else cache.lines key := by
  induction outPoints generalizing cache with
  | nil => rfl
  | cons outPoint rest ih =>
    rw [List.map_cons, List.foldl_cons, ih, lines_put]
    rcases eq_or_ne key outPoint with rfl | distinct
    · simp
    · simp [distinct]

def missing (cache : UtxoCache) (outPoints : List OutPoint) : List OutPoint :=
  outPoints.filter fun outPoint => (cache.lines outPoint).isNone

variable {outPoints : List OutPoint}

theorem mem_missing :
    outPoint ∈ cache.missing outPoints ↔ outPoint ∈ outPoints ∧ cache.lines outPoint = none := by
  rw [missing, List.mem_filter, Option.isNone_iff_eq_none]

theorem fetchEntries_of_fails (fails : (cache.missing outPoints).any readFails = true) :
    cache.fetchEntries memory utxos readFails outPoints = (cache, .error .database) := by
  have read : (outPoints.filter fun outPoint => (cache.cachedEntries.get outPoint).isNone).mapM
      (dbFetchUtxoEntry utxos readFails) = .error .database :=
    (mapM_dbFetchUtxoEntry _).trans (if_pos fails)
  simp only [fetchEntries, read]

theorem fetchEntries_of_reads (reads : (cache.missing outPoints).any readFails = false) :
    ∃ after, cache.fetchEntries memory utxos readFails outPoints =
        (after, .ok (outPoints.map fun outPoint =>
          (cache.lines outPoint).getD ((utxos outPoint).map Line.clean))) ∧
      after.lines = cache.lines.fetch utxos outPoints := by
  refine ⟨((cache.missing outPoints).map fun outPoint =>
    (outPoint, (utxos outPoint).map Line.clean)).foldl
      (fun cache (outPoint, entry) => put memory cache outPoint entry) cache, ?_, ?_⟩
  · have read := (@mapM_dbFetchUtxoEntry utxos readFails (outPoints.filter fun outPoint =>
      (cache.cachedEntries.get outPoint).isNone)).trans (if_neg (Bool.eq_false_iff.mp reads))
    simp only [fetchEntries, read]
    rw [List.map_prod_left_eq_zip]
    rfl
  · funext key
    rw [lines_foldl_put, Lines.fetch]
    exact if_congr mem_missing rfl rfl

/-- A cache that is coherent with the database and stands for a ledger over it. -/
structure Stands (cache : UtxoCache) (utxos ledger : Ledger OutPoint SpentTxOut) : Prop where
  coherent : Lines.Coherent cache.lines utxos
  overlay : cache.lines.overlay utxos = ledger

variable {ledger : Ledger OutPoint SpentTxOut} {after : UtxoCache}

theorem Stands.fetched (stands : Stands cache utxos ledger)
    (read : after.lines = cache.lines.fetch utxos outPoints) :
    Stands after utxos ledger := by
  refine ⟨?_, ?_⟩
  · rw [read]
    exact stands.coherent.fetch outPoints
  · rw [read, Lines.overlay_fetch]
    exact stands.overlay

theorem Stands.fetchEntries (stands : Stands cache utxos ledger) (outPoints : List OutPoint) :
    Stands (cache.fetchEntries memory utxos readFails outPoints).1 utxos ledger := by
  cases fails : (cache.missing outPoints).any readFails with
  | true =>
    rw [fetchEntries_of_fails fails]
    exact stands
  | false =>
    obtain ⟨after, fetched, read⟩ :=
      @fetchEntries_of_reads memory cache utxos readFails outPoints fails
    rw [fetched]
    exact stands.fetched read

theorem addTxIn_cases (txIn : TxIn) : (readFails txIn.previousOutPoint = true ∧
      cache.addTxIn memory utxos readFails txIn = (cache, .error .database)) ∨
    (∃ after, cache.addTxIn memory utxos readFails txIn = (after, .error (.chain (.assert
          ("missing input " ++ outPointString txIn.previousOutPoint)))) ∧
      cache.lines.fetch utxos [txIn.previousOutPoint] txIn.previousOutPoint = some none ∧
      after.lines = cache.lines.fetch utxos [txIn.previousOutPoint]) ∨
    ∃ entry after, cache.addTxIn memory utxos readFails txIn = (after, .ok entry.coin) ∧
      cache.lines.fetch utxos [txIn.previousOutPoint] txIn.previousOutPoint = some (some entry) ∧
      after.lines = (cache.lines.fetch utxos [txIn.previousOutPoint]).spend
        txIn.previousOutPoint entry := by
  cases fails : (cache.missing [txIn.previousOutPoint]).any readFails with
  | true =>
    obtain ⟨outPoint, member, unread⟩ := List.any_eq_true.mp fails
    rw [List.mem_singleton.mp (mem_missing.mp member).1] at unread
    refine .inl ⟨unread, ?_⟩
    rw [addTxIn, fetchEntries_of_fails fails]
  | false =>
    right
    obtain ⟨fetched, equation, read⟩ :=
      @fetchEntries_of_reads memory cache utxos readFails [txIn.previousOutPoint] fails
    have value : cache.lines.fetch utxos [txIn.previousOutPoint] txIn.previousOutPoint =
        some ((cache.lines txIn.previousOutPoint).getD
          ((utxos txIn.previousOutPoint).map Line.clean)) := by
      cases present : cache.lines txIn.previousOutPoint with
      | none => exact if_pos ⟨List.mem_singleton_self _, present⟩
      | some cached =>
        exact (if_neg fun both =>
          Option.some_ne_none cached (present.symm.trans both.2)).trans present
    rw [addTxIn, equation, List.map_singleton, value]
    cases (cache.lines txIn.previousOutPoint).getD
        ((utxos txIn.previousOutPoint).map Line.clean) with
    | none => exact .inl ⟨fetched, rfl, rfl, read⟩
    | some entry =>
      right
      cases isFresh : entry.fresh with
      | true =>
        refine ⟨entry, _, if_pos isFresh, rfl, ?_⟩
        rw [Lines.spend, isFresh, if_pos rfl, ← read]
        exact MapSlice.get_delete ..
      | false =>
        refine ⟨entry, _, if_neg (ne_true_of_eq_false isFresh), rfl, ?_⟩
        rw [Lines.spend, isFresh, if_neg Bool.false_ne_true, ← read]
        exact MapSlice.get_put ..

theorem Stands.addTxIn_error (stands : Stands cache utxos ledger)
    (failed : cache.addTxIn memory utxos readFails txIn = (after, .error error)) :
    Stands after utxos ledger := by
  rcases @addTxIn_cases memory cache utxos readFails txIn with
    ⟨-, unread⟩ | ⟨fetched, absent, -, read⟩ | ⟨entry, fetched, spent, -⟩
  · rw [unread] at failed
    cases failed
    exact stands
  · rw [absent] at failed
    cases failed
    exact stands.fetched read
  · rw [spent] at failed
    cases failed

theorem Stands.addTxIn_ok (stands : Stands cache utxos ledger)
    (added : cache.addTxIn memory utxos readFails txIn = (after, .ok stxo)) :
    Stands after utxos (ledger.spend [txIn.previousOutPoint]) := by
  rcases @addTxIn_cases memory cache utxos readFails txIn with
    ⟨-, unread⟩ | ⟨fetched, absent, -, -⟩ | ⟨entry, fetched, spent, present, read⟩
  · rw [unread] at added
    cases added
  · rw [absent] at added
    cases added
  · rw [spent] at added
    cases added
    have coherent := stands.coherent.fetch [txIn.previousOutPoint]
    refine ⟨?_, ?_⟩
    · rw [read]
      exact coherent.spend present
    · rw [read, coherent.overlay_spend present, Lines.overlay_fetch, stands.overlay]

theorem Stands.addTxIn_of_unspent (stands : Stands cache utxos ledger) {txIn : TxIn}
    {coin : SpentTxOut} (reads : readFails txIn.previousOutPoint = false)
    (unspent : ledger txIn.previousOutPoint = some coin) :
    ∃ after, cache.addTxIn memory utxos readFails txIn = (after, .ok coin) := by
  have held : (cache.lines.fetch utxos [txIn.previousOutPoint]).overlay utxos
      txIn.previousOutPoint = some coin := by
    rw [Lines.overlay_fetch, stands.overlay]
    exact unspent
  rcases @addTxIn_cases memory cache utxos readFails txIn with
    ⟨unread, -⟩ | ⟨fetched, absent, present, -⟩ | ⟨entry, fetched, spent, present, -⟩
  · rw [reads] at unread
    cases unread
  · rw [Lines.overlay_of_some present] at held
    cases held
  · rw [Lines.overlay_of_some present, Option.bind_some] at held
    exact ⟨fetched, by rw [spent, Line.coin_of_held held]⟩

section Connect

variable (memory rules cache utxos readFails)

def spentPart : UtxoCache → List TxIn → List OutPoint
  | _, [] => []
  | cache, txIn :: rest =>
    match cache.addTxIn memory utxos readFails txIn with
    | (_, .error _) => []
    | (cache, .ok _) => txIn.previousOutPoint :: spentPart cache rest

def connectedPart (blockHeight : Int32) :
    UtxoCache → List MsgTx → List (Transfer OutPoint SpentTxOut)
  | _, [] => []
  | cache, tx :: rest =>
    match cache.connectTransaction memory utxos readFails rules tx blockHeight with
    | (_, .error _) => [⟨spentPart memory utxos readFails cache tx.txIn, []⟩]
    | (cache, .ok _) => txTransfer rules blockHeight tx :: connectedPart blockHeight cache rest

end Connect

variable {blockHeight : Int32}

theorem Stands.addTxIns (stands : Stands cache utxos ledger) (inputs : List TxIn) :
    Stands (addTxIns memory utxos readFails cache inputs).1 utxos
      (ledger.spend (spentPart memory utxos readFails cache inputs)) := by
  induction inputs generalizing cache ledger with
  | nil => exact stands
  | cons txIn rest ih =>
    rw [UtxoCache.addTxIns, spentPart]
    rcases added : addTxIn memory cache utxos readFails txIn with ⟨after, error | stxo⟩
    · exact stands.addTxIn_error added
    · exact ih (stands.addTxIn_ok added)

variable {stxos : List SpentTxOut}

theorem spentPart_of_ok
    (added : (addTxIns memory utxos readFails cache inputs).2 = .ok stxos) :
    spentPart memory utxos readFails cache inputs = inputs.map TxIn.previousOutPoint := by
  induction inputs generalizing cache stxos with
  | nil => rfl
  | cons txIn rest ih =>
    rw [addTxIns] at added
    rw [spentPart]
    rcases first : addTxIn memory cache utxos readFails txIn with ⟨after, error | stxo⟩
    · rw [first] at added
      cases added
    · rw [first] at added
      dsimp only at added ⊢
      rw [List.map_cons]
      cases others : (addTxIns memory utxos readFails after rest).2 with
      | error error =>
        simp only [others] at added
        cases added
      | ok more => exact congrArg _ (ih others)

theorem lines_addTxOuts (tx : MsgTx) : (cache.addTxOuts memory rules tx blockHeight).lines =
      cache.lines.create (txTransfer rules blockHeight tx).created := by
  simp only [addTxOuts, txTransfer, Lines.create, List.foldl_map]
  induction spendableOutputs rules tx generalizing cache with
  | nil => rfl
  | cons output rest ih =>
    rw [List.foldl_cons, List.foldl_cons, ih, lines_put]

theorem Stands.addTxOuts (stands : Stands cache utxos ledger) (tx : MsgTx)
    (new : ∀ outPoint ∈ (txTransfer rules blockHeight tx).created.map Prod.fst,
      utxos outPoint = none) : Stands (cache.addTxOuts memory rules tx blockHeight) utxos
      (ledger.create (txTransfer rules blockHeight tx).created) := by
  refine ⟨?_, ?_⟩
  · rw [lines_addTxOuts]
    exact stands.coherent.create new
  · rw [lines_addTxOuts, Lines.overlay_create, stands.overlay]

theorem spent_txTransfer (notCoinBase : ¬isCoinBaseTx tx = true) :
    (txTransfer rules blockHeight tx).spent = tx.txIn.map TxIn.previousOutPoint := by
  simp only [txTransfer, notCoinBase]
  rfl

theorem spent_txTransfer_coinBase (isCoinBase : isCoinBaseTx tx = true) :
    (txTransfer rules blockHeight tx).spent = [] := by
  simp only [txTransfer, isCoinBase, if_true]

theorem Stands.connectTransaction_ok (stands : Stands cache utxos ledger)
    (new : ∀ outPoint ∈ (txTransfer rules blockHeight tx).created.map Prod.fst,
      utxos outPoint = none)
    (connected : cache.connectTransaction memory utxos readFails rules tx blockHeight =
      (after, .ok stxos)) :
    Stands after utxos (ledger.apply (txTransfer rules blockHeight tx)) := by
  rw [connectTransaction] at connected
  rw [Ledger.apply]
  split at connected
  · next isCoinBase =>
    cases connected
    rw [spent_txTransfer_coinBase isCoinBase]
    exact stands.addTxOuts tx new
  · next notCoinBase =>
    have spends := @Stands.addTxIns memory cache utxos readFails ledger stands tx.txIn
    split at connected
    · cases connected
    · next middle spentOutputs added =>
      cases connected
      rw [spentPart_of_ok (congrArg Prod.snd added), added] at spends
      rw [spent_txTransfer notCoinBase]
      exact spends.addTxOuts tx new

theorem Stands.connectTransaction_error (stands : Stands cache utxos ledger)
    (failed : cache.connectTransaction memory utxos readFails rules tx blockHeight =
      (after, .error error)) :
    Stands after utxos (ledger.spend (spentPart memory utxos readFails cache tx.txIn)) := by
  rw [connectTransaction] at failed
  split at failed
  · cases failed
  · have spends := @Stands.addTxIns memory cache utxos readFails ledger stands tx.txIn
    split at failed
    · next middle error added =>
      cases failed
      rw [added] at spends
      exact spends
    · cases failed

theorem Stands.connectTransactions (stands : Stands cache utxos ledger)
    (new : ∀ outPoint ∈ Ledger.createdKeys (blockTransfers rules blockHeight transactions),
      utxos outPoint = none) :
    Stands (connectTransactions memory utxos readFails rules blockHeight cache
      transactions).1 utxos (ledger.applyAll
        (connectedPart memory rules utxos readFails blockHeight cache transactions)) := by
  induction transactions generalizing cache ledger with
  | nil => exact stands
  | cons tx rest ih =>
    rw [blockTransfers_cons, Ledger.createdKeys_cons, List.forall_mem_append] at new
    rw [UtxoCache.connectTransactions, connectedPart]
    rcases connected : connectTransaction memory cache utxos readFails rules tx blockHeight
      with ⟨after, error | stxos⟩
    · exact stands.connectTransaction_error connected
    · exact ih (stands.connectTransaction_ok new.1 connected) new.2

theorem connectedPart_of_ok
    (connected : (connectTransactions memory utxos readFails rules blockHeight cache
      transactions).2 = .ok stxos) :
    connectedPart memory rules utxos readFails blockHeight cache transactions =
      blockTransfers rules blockHeight transactions := by
  induction transactions generalizing cache stxos with
  | nil => rfl
  | cons tx rest ih =>
    rw [connectTransactions] at connected
    rw [connectedPart]
    rcases added : connectTransaction memory cache utxos readFails rules tx blockHeight
      with ⟨after, error | first⟩
    · rw [added] at connected
      cases connected
    · rw [added] at connected
      dsimp only at connected ⊢
      rw [blockTransfers_cons]
      cases others : (connectTransactions memory utxos readFails rules blockHeight after
          rest).2 with
      | error error =>
        simp only [others] at connected
        cases connected
      | ok more => exact congrArg _ (ih others)

theorem createdKeys_connectedPart_subset : Ledger.createdKeys
      (connectedPart memory rules utxos readFails blockHeight cache transactions) ⊆
    Ledger.createdKeys (blockTransfers rules blockHeight transactions) := by
  induction transactions generalizing cache with
  | nil => exact List.Subset.refl _
  | cons tx rest ih =>
    rw [connectedPart, blockTransfers_cons, Ledger.createdKeys_cons]
    split
    · exact List.nil_subset _
    · rw [Ledger.createdKeys_cons]
      exact List.append_subset.mpr ⟨List.subset_append_left _ _,
        List.Subset.trans ih (List.subset_append_right _ _)⟩

theorem Stands.addTxIns_of_available (stands : Stands cache utxos ledger)
    (reads : ∀ outPoint, readFails outPoint = false) {inputs : List TxIn}
    (nodup : (inputs.map TxIn.previousOutPoint).Nodup)
    (available : ∀ outPoint ∈ inputs.map TxIn.previousOutPoint,
      ∃ coin, ledger outPoint = some coin) :
    (UtxoCache.addTxIns memory utxos readFails cache inputs).2 =
      .ok ((inputs.map TxIn.previousOutPoint).filterMap ledger) := by
  induction inputs generalizing cache ledger with
  | nil => rfl
  | cons txIn rest ih =>
    rw [List.map_cons] at nodup available ⊢
    obtain ⟨absent, nodup⟩ := List.nodup_cons.mp nodup
    rw [List.forall_mem_cons] at available
    obtain ⟨⟨coin, unspent⟩, available⟩ := available
    obtain ⟨after, added⟩ := @Stands.addTxIn_of_unspent memory cache utxos readFails ledger
      stands txIn coin (reads _) unspent
    have unchanged : ∀ outPoint ∈ rest.map TxIn.previousOutPoint,
        ledger.spend [txIn.previousOutPoint] outPoint = ledger outPoint := by
      intro outPoint member
      rw [Ledger.spend_apply, if_neg]
      rintro same
      exact absent (List.mem_singleton.mp same ▸ member)
    have others := ih (stands.addTxIn_ok added) nodup fun outPoint member => by
      rw [unchanged outPoint member]
      exact available outPoint member
    rw [UtxoCache.addTxIns, added]
    simp only [others, Except.map, List.filterMap_cons_some unspent]
    rw [List.filterMap_congr unchanged]

theorem Stands.connectTransaction_of_connects (stands : Stands cache utxos ledger)
    (reads : ∀ outPoint, readFails outPoint = false) {tx : MsgTx}
    (connects : Ledger.Connects (txTransfer rules blockHeight tx) ledger) :
    ∃ after, cache.connectTransaction memory utxos readFails rules tx blockHeight =
      (after, .ok (ledger.coins (txTransfer rules blockHeight tx))) := by
  rw [connectTransaction, Ledger.coins]
  split
  · next isCoinBase =>
    rw [spent_txTransfer_coinBase isCoinBase]
    exact ⟨_, rfl⟩
  · next notCoinBase =>
    obtain ⟨nodup, available, -⟩ := connects
    rw [spent_txTransfer notCoinBase] at nodup available ⊢
    have added := @Stands.addTxIns_of_available memory cache utxos readFails ledger stands
      reads tx.txIn nodup available
    split
    · next failed =>
      rw [failed] at added
      cases added
    · next after stxos equation =>
      rw [equation] at added
      exact ⟨_, congrArg (Prod.mk _) added⟩

theorem Stands.connectTransactions_of_connects (stands : Stands cache utxos ledger)
    (reads : ∀ outPoint, readFails outPoint = false)
    (new : ∀ outPoint ∈ Ledger.createdKeys (blockTransfers rules blockHeight transactions),
      utxos outPoint = none)
    (connects : Ledger.ConnectsAll (blockTransfers rules blockHeight transactions) ledger) :
    (UtxoCache.connectTransactions memory utxos readFails rules blockHeight cache transactions).2 =
      .ok (ledger.coinsAll (blockTransfers rules blockHeight transactions)) := by
  induction transactions generalizing cache ledger with
  | nil => rfl
  | cons tx rest ih =>
    rw [blockTransfers_cons, Ledger.createdKeys_cons, List.forall_mem_append] at new
    obtain ⟨after, first⟩ := @Stands.connectTransaction_of_connects memory rules cache
      utxos readFails ledger blockHeight stands reads tx connects.1
    have others := ih (stands.connectTransaction_ok new.1 first) new.2 connects.2
    rw [UtxoCache.connectTransactions, first]
    simp only [others, Except.map]
    rfl

end ModelOS.BlockChain.UtxoCache
