import ModelOS.BlockChain.CacheFlush
import ModelOS.Data.LedgerHistory

namespace ModelOS.BlockChain

open Data Wire

namespace UtxoCache

/-! The utxo cache refines the plain set of unspent outputs over whole runs. -/

section Plain

variable (rules : TxRules) (blockHash : MsgBlock → Hash) (base : Hash)
  (origin : Ledger OutPoint SpentTxOut)

def plainSet (blocks : List StackedBlock) : Ledger OutPoint SpentTxOut :=
  origin.applyAll (stackTransfers rules blocks)

def hashes (blocks : List StackedBlock) : List Hash :=
  base :: blocks.map fun stacked => blockHash stacked.block

/-- Every input is unspent when it is spent, every created outpoint is new on the chain,
and so is the block. -/
structure ValidBlock (chain : List StackedBlock) (stacked : StackedBlock) : Prop where
  connects : Ledger.ConnectsAll (blockTransfers rules stacked.height stacked.block.transactions)
    (plainSet rules origin chain)
  fresh : ∀ outPoint ∈ Ledger.createdKeys
      (blockTransfers rules stacked.height stacked.block.transactions),
    origin outPoint = none ∧ outPoint ∉ Ledger.createdKeys (stackTransfers rules chain)
  new : blockHash stacked.block ∉ hashes blockHash base chain

def ValidChain (chain : List StackedBlock) : Prop :=
  ∀ before stacked after, chain = before ++ stacked :: after →
    ValidBlock rules blockHash base origin before stacked

end Plain

variable {memory : MemoryRules} {rules : TxRules} {blockHash : MsgBlock → Hash}
  {base : Hash} {origin : Ledger OutPoint SpentTxOut} {cache : UtxoCache} {db : ChainDb}
  {chain blocks : List StackedBlock} {stacked : StackedBlock}

theorem plainSet_append (first second : List StackedBlock) :
    plainSet rules origin (first ++ second) =
      (plainSet rules origin first).applyAll (stackTransfers rules second) := by
  rw [plainSet, stackTransfers, List.flatMap_append, Ledger.applyAll_append]
  rfl

theorem plainSet_eq_none (absent : origin outPoint = none)
    (notCreated : outPoint ∉ Ledger.createdKeys (stackTransfers rules blocks)) :
    plainSet rules origin blocks outPoint = none := by
  cases held : plainSet rules origin blocks outPoint with
  | none => rfl
  | some coin =>
    rcases Ledger.applyAll_eq_some held with before | ⟨transfer, member, created⟩
    · rw [absent] at before
      cases before
    · exact absurd (List.mem_flatMap.mpr ⟨transfer, member, List.mem_map_of_mem created⟩) notCreated

theorem createdKeys_append (first second : List StackedBlock) :
    Ledger.createdKeys (stackTransfers rules (first ++ second)) =
      Ledger.createdKeys (stackTransfers rules first) ++
        Ledger.createdKeys (stackTransfers rules second) := by
  rw [Ledger.createdKeys, stackTransfers, List.flatMap_append, List.flatMap_append]
  rfl

theorem validChain_nil : ValidChain rules blockHash base origin [] := by
  intro before stacked after split
  exact absurd split.symm (List.append_ne_nil_of_right_ne_nil _ (List.cons_ne_nil _ _))

theorem ValidChain.concat (valid : ValidChain rules blockHash base origin chain)
    (validBlock : ValidBlock rules blockHash base origin chain stacked) :
    ValidChain rules blockHash base origin (chain ++ [stacked]) := by
  intro before other after split
  rcases List.eq_nil_or_concat after with rfl | ⟨front, last, rfl⟩
  · obtain ⟨rfl, same⟩ := List.append_inj' split rfl
    cases same
    exact validBlock
  · rw [List.concat_eq_append, ← List.cons_append, ← List.append_assoc] at split
    obtain ⟨rfl, -⟩ := List.append_inj' split rfl
    exact valid before other front rfl

theorem tipHash_append (first second : List StackedBlock) :
    tipHash blockHash base (first ++ second) =
      tipHash blockHash (tipHash blockHash base first) second := by
  rcases List.eq_nil_or_concat second with rfl | ⟨front, last, rfl⟩
  · rw [List.append_nil]
    rfl
  · rw [List.concat_eq_append, ← List.append_assoc, tipHash, tipHash,
      List.getLast?_concat, List.getLast?_concat]
    rfl

theorem tipHash_concat : tipHash blockHash base (chain ++ [stacked]) = blockHash stacked.block :=
  tipHash_append ..

theorem ValidChain.nodup (valid : ValidChain rules blockHash base origin chain) :
    (hashes blockHash base chain).Nodup := by
  induction chain using List.reverseRecOn with
  | nil => exact List.nodup_singleton _
  | append_singleton front last ih =>
    have before : ValidChain rules blockHash base origin front := by
      intro first other rest split
      exact valid first other (rest ++ [last]) (by
        rw [split, List.append_assoc, List.cons_append])
    have new := (valid front last [] rfl).new
    rw [hashes, List.map_append, ← List.cons_append, List.nodup_append]
    refine ⟨ih before, List.nodup_singleton _, ?_⟩
    rintro hash member other last rfl
    rw [List.map_singleton, List.mem_singleton] at last
    exact new (last ▸ member)

theorem blocksAfter_tipHash (nodup : (hashes blockHash base (chain ++ blocks)).Nodup) :
    blocksAfter blockHash (tipHash blockHash base chain) base (chain ++ blocks) = some blocks := by
  induction chain generalizing base with
  | nil =>
    cases blocks with
    | nil => exact if_pos rfl
    | cons stacked rest => exact if_pos rfl
  | cons stacked rest ih =>
    have further : tipHash blockHash base (stacked :: rest) =
        tipHash blockHash (blockHash stacked.block) rest := tipHash_append [stacked] rest
    have inner := (List.nodup_cons.mp nodup).2
    have distinct : tipHash blockHash (blockHash stacked.block) rest ≠ base := by
      intro same
      apply (List.nodup_cons.mp nodup).1
      rw [← same, tipHash]
      cases last : rest.getLast? with
      | none => exact .head _
      | some top =>
        apply List.mem_map_of_mem
        exact List.mem_append_left _ (.tail _ (List.mem_of_getLast? last))
    rw [List.cons_append, blocksAfter, further, if_neg distinct]
    exact ih inner

def Recorded (rules : TxRules) (blockHash : MsgBlock → Hash) (base : Hash)
    (origin : Ledger OutPoint SpentTxOut) (db : ChainDb) (chain : List StackedBlock) : Prop :=
  ∃ before after, chain = before ++ after ∧
    db.utxoStateConsistency = some (tipHash blockHash base before) ∧
    db.utxos = plainSet rules origin before

/-- A cache that stands for the plain set over a database that records it in part. -/
structure Tracks (rules : TxRules) (blockHash : MsgBlock → Hash) (base : Hash)
    (origin : Ledger OutPoint SpentTxOut) (cache : UtxoCache) (db : ChainDb)
    (chain : List StackedBlock) : Prop where
  stands : Stands cache db.utxos (plainSet rules origin chain)
  recorded : Recorded rules blockHash base origin db chain

theorem Recorded.append (recorded : Recorded rules blockHash base origin db chain)
    (more : List StackedBlock) : Recorded rules blockHash base origin db (chain ++ more) := by
  obtain ⟨before, after, rfl, status, utxos⟩ := recorded
  exact ⟨before, after ++ more, List.append_assoc .., status, utxos⟩

theorem Recorded.new (recorded : Recorded rules blockHash base origin db chain)
    (valid : ValidBlock rules blockHash base origin chain stacked) : ∀ outPoint ∈ Ledger.createdKeys
        (blockTransfers rules stacked.height stacked.block.transactions),
      db.utxos outPoint = none := by
  intro outPoint member
  obtain ⟨before, after, rfl, -, utxos⟩ := recorded
  obtain ⟨absent, notCreated⟩ := valid.fresh outPoint member
  rw [createdKeys_append, List.mem_append, not_or] at notCreated
  rw [utxos]
  exact plainSet_eq_none absent notCreated.1

theorem Tracks.connect (tracks : Tracks rules blockHash base origin cache db chain)
    (valid : ValidBlock rules blockHash base origin chain stacked) :
    ∃ after, connectTransactions memory db.utxos (fun _ => false) rules stacked.height cache
        stacked.block.transactions = (after, .ok ((plainSet rules origin chain).coinsAll
          (blockTransfers rules stacked.height stacked.block.transactions))) ∧
      Tracks rules blockHash base origin after db (chain ++ [stacked]) := by
  have new := tracks.recorded.new valid
  have connected := @Stands.connectTransactions_of_connects memory rules cache db.utxos
    (fun _ => false) _ stacked.height _ tracks.stands (fun _ => rfl) new valid.connects
  have stands := @Stands.connectTransactions memory rules cache db.utxos (fun _ => false) _
    stacked.height _ tracks.stands new
  rw [connectedPart_of_ok connected] at stands
  refine ⟨_, Prod.ext rfl connected, ?_, tracks.recorded.append [stacked]⟩
  rw [plainSet_append, stackTransfers, List.flatMap_singleton]
  exact stands

theorem Tracks.flush (tracks : Tracks rules blockHash base origin cache db chain)
    (order : MapOrder) (now : Int) (mode : FlushMode) :
    ∃ after written, cache.flushUtxoCache memory order now mode
        (tipHash blockHash base chain) db none = (after, written, .ok ()) ∧
      Tracks rules blockHash base origin after written chain ∧
      written.mainChain = db.mainChain := by
  obtain ⟨after, written, equation, stands, same | flushed⟩ :=
    @Stands.flushUtxoCache order memory now cache (tipHash blockHash base chain) _ db
      tracks.stands mode
  · subst same
    exact ⟨after, written, equation, ⟨stands, tracks.recorded⟩, rfl⟩
  · subst flushed
    refine ⟨after, _, equation, ⟨stands, chain, [], ?_, rfl, rfl⟩, rfl⟩
    rw [List.append_nil]

structure Startup where
  order : MapOrder
  now : Int

def Startup.context (startup : Startup) (interruptAfter : Option Nat) : StartContext where
  order := startup.order
  now := startup.now
  readFails _ := false
  budget := none
  interruptAfter

theorem Tracks.replay (startup : Startup) (context interrupt : Option Nat)
    (tracks : Tracks rules blockHash base origin cache db chain)
    (valid : ValidChain rules blockHash base origin (chain ++ blocks)) :
    ∃ after written result, replayBlocks memory rules blockHash (startup.context context)
        interrupt blocks cache db = (after, written, result) ∧ written.mainChain = db.mainChain ∧
      Recorded rules blockHash base origin written (chain ++ blocks) ∧
      (result = .ok () → Tracks rules blockHash base origin after written (chain ++ blocks)) ∧
      (interrupt = none → result = .ok ()) := by
  induction blocks generalizing chain cache db interrupt with
  | nil =>
    rw [List.append_nil]
    exact ⟨cache, db, .ok (), rfl, rfl, tracks.recorded, fun _ => tracks, fun _ => rfl⟩
  | cons stacked rest ih =>
    obtain ⟨connected, equation, tracksBlock⟩ :=
      @Tracks.connect memory rules blockHash base origin cache db chain stacked tracks
        (valid chain stacked rest rfl)
    obtain ⟨flushed, written, flushes, tracksFlushed, sameChain⟩ :=
      @Tracks.flush memory _ _ _ _ _ _ _ tracksBlock startup.order startup.now .flushIfNeeded
    rw [tipHash_concat] at flushes
    have split : chain ++ stacked :: rest = (chain ++ [stacked]) ++ rest := List.append_cons ..
    rw [split] at valid ⊢
    rw [replayBlocks]
    simp only [Startup.context, equation, flushes]
    cases interrupt with
    | none =>
      obtain ⟨after, final, result, replayed, kept, outcome⟩ := ih none tracksFlushed valid
      exact ⟨after, final, result, replayed, kept.trans sameChain, outcome⟩
    | some count =>
      cases count with
      | zero =>
        exact ⟨flushed, written, .error .interruptRequested, rfl, sameChain,
          tracksFlushed.recorded.append rest, by rintro ⟨⟩, by rintro ⟨⟩⟩
      | succ more =>
        obtain ⟨after, final, result, replayed, kept, recorded, reaches, -⟩ :=
          ih (some more) tracksFlushed valid
        exact ⟨after, final, result, replayed, kept.trans sameChain, recorded,
          reaches, by rintro ⟨⟩⟩

/-- A database that the node may start from: it records a block, or it is older than the
records and holds the set at the tip. -/
def Startable (rules : TxRules) (blockHash : MsgBlock → Hash) (base : Hash)
    (origin : Ledger OutPoint SpentTxOut) (db : ChainDb) : Prop :=
  Recorded rules blockHash base origin db db.mainChain ∨
    db.utxoStateConsistency = none ∧ db.utxos = plainSet rules origin db.mainChain

theorem Tracks.flushedAt (tracks : Tracks rules blockHash base origin cache db chain)
    (hash : Hash) (now : Int) :
    Tracks rules blockHash base origin (cache.flushedAt hash now) db chain :=
  ⟨⟨tracks.stands.coherent, tracks.stands.overlay⟩, tracks.recorded⟩

theorem initConsistentState_spec (startup : Startup) (interrupt : Option Nat)
    (maxTotalMemoryUsage : UInt64) (startable : Startable rules blockHash base origin db)
    (valid : ValidChain rules blockHash base origin db.mainChain) :
    ∃ after written result, initConsistentState memory rules blockHash
        (startup.context interrupt) base (newUtxoCache memory maxTotalMemoryUsage) db =
        (after, written, result) ∧ written.mainChain = db.mainChain ∧
      Recorded rules blockHash base origin written db.mainChain ∧
      (result = .ok () → Tracks rules blockHash base origin after written db.mainChain) ∧
      (interrupt = none → result = .ok ()) := by
  have fresh : ∀ utxos, Stands (newUtxoCache memory maxTotalMemoryUsage) utxos utxos :=
    fun _ => ⟨Lines.coherent_empty, Lines.empty_over⟩
  rw [initConsistentState]
  rcases startable with ⟨before, after, split, status, utxos⟩ | ⟨unrecorded, utxos⟩
  · simp only [status]
    have nodup := valid.nodup
    rw [split] at nodup
    have found : blocksAfter blockHash (tipHash blockHash base before) base db.mainChain =
        some after := by
      rw [split]
      exact blocksAfter_tipHash nodup
    have tracks : Tracks rules blockHash base origin
        (newUtxoCache memory maxTotalMemoryUsage) db before :=
      ⟨utxos ▸ fresh _, before, [], (List.append_nil _).symm, status, utxos⟩
    split
    · next atTip =>
      have whole : before = db.mainChain := by
        have here := @blocksAfter_tipHash blockHash base db.mainChain [] (by
          rw [List.append_nil]
          exact valid.nodup)
        rw [List.append_nil, ← atTip, found] at here
        rw [split, Option.some.inj here, List.append_nil]
      rw [whole] at tracks
      exact ⟨_, db, .ok (), rfl, rfl, tracks.recorded, fun _ => tracks.flushedAt _ _,
        fun _ => rfl⟩
    · simp only [found]
      obtain ⟨last, written, result, replayed, kept, recorded, reaches, ends⟩ :=
        @Tracks.replay memory rules blockHash base origin _ db before after startup interrupt
          interrupt tracks (split ▸ valid)
      rw [← split] at recorded reaches
      simp only [Startup.context] at replayed ⊢
      rw [replayed]
      cases result with
      | error error =>
        exact ⟨last, written, .error error, rfl, kept, recorded, by rintro ⟨⟩, ends⟩
      | ok done =>
        exact ⟨_, written, .ok (), rfl, kept, recorded,
          fun _ => (reaches rfl).flushedAt _ _, fun _ => rfl⟩
  · simp only [unrecorded]
    have recorded : Recorded rules blockHash base origin
        (db.consistentAt db.utxos (tipHash blockHash base db.mainChain)) db.mainChain :=
      ⟨db.mainChain, [], (List.append_nil _).symm, rfl, utxos⟩
    have tracks : Tracks rules blockHash base origin (newUtxoCache memory maxTotalMemoryUsage)
        (db.consistentAt db.utxos (tipHash blockHash base db.mainChain)) db.mainChain :=
      ⟨utxos ▸ fresh db.utxos, recorded⟩
    exact ⟨_, _, .ok (), rfl, rfl, recorded, fun _ => tracks.flushedAt _ _, fun _ => rfl⟩

end UtxoCache

structure UtxoNode where
  cache : UtxoCache
  db : ChainDb

/-- A restart may be interrupted several times before it completes. -/
inductive UtxoOp
  | fetchEntries (outPoints : List OutPoint)
  | connectBlock (stacked : StackedBlock)
  | flush (mode : UtxoCache.FlushMode) (order : UtxoCache.MapOrder) (now : Int)
  | restart (interrupted : List (UtxoCache.Startup × Nat)) (startup : UtxoCache.Startup)

open UtxoCache

section Run

variable (memory : MemoryRules) (rules : TxRules) (blockHash : MsgBlock → Hash) (base : Hash)
  (maxTotalMemoryUsage : UInt64)

def start (startup : Startup) (interruptAfter : Option Nat) (db : ChainDb) :
    UtxoCache × ChainDb × Except CacheError Unit :=
  initConsistentState memory rules blockHash (startup.context interruptAfter) base
    (newUtxoCache memory maxTotalMemoryUsage) db

def afterInterrupts (interrupted : List (Startup × Nat)) (db : ChainDb) : ChainDb :=
  interrupted.foldl (fun db (startup, blocks) =>
    (start memory rules blockHash base maxTotalMemoryUsage startup (some blocks) db).2.1) db

def startNode (startup : Startup) (db : ChainDb) : Except CacheError UtxoNode :=
  match start memory rules blockHash base maxTotalMemoryUsage startup none db with
  | (_, _, .error error) => .error error
  | (cache, db, .ok ()) => .ok ⟨cache, db⟩

def UtxoNode.step (node : UtxoNode) : UtxoOp → Except CacheError (UtxoNode × List SpentTxOut)
  | .fetchEntries outPoints =>
    match node.cache.fetchEntries memory node.db.utxos (fun _ => false) outPoints with
    | (_, .error error) => .error error
    | (cache, .ok _) => .ok (⟨cache, node.db⟩, [])
  | .connectBlock stacked =>
    match UtxoCache.connectTransactions memory node.db.utxos (fun _ => false) rules
        stacked.height node.cache stacked.block.transactions with
    | (_, .error error) => .error error
    | (cache, .ok stxos) =>
      .ok (⟨cache, { node.db with mainChain := node.db.mainChain ++ [stacked] }⟩, stxos)
  | .flush mode order now =>
    match node.cache.flushUtxoCache memory order now mode
        (tipHash blockHash base node.db.mainChain) node.db none with
    | (_, _, .error error) => .error error
    | (cache, db, .ok ()) => .ok (⟨cache, db⟩, [])
  | .restart interrupted startup =>
    match startNode memory rules blockHash base maxTotalMemoryUsage startup
        (afterInterrupts memory rules blockHash base maxTotalMemoryUsage interrupted node.db) with
    | .error error => .error error
    | .ok node => .ok (node, [])

def UtxoNode.run : UtxoNode → List UtxoOp → Except CacheError (UtxoNode × List (List SpentTxOut))
  | node, [] => .ok (node, [])
  | node, op :: rest =>
    match node.step memory rules blockHash base maxTotalMemoryUsage op with
    | .error error => .error error
    | .ok (node, stxos) =>
      match UtxoNode.run node rest with
      | .error error => .error error
      | .ok (node, journals) => .ok (node, stxos :: journals)

variable (origin : Ledger OutPoint SpentTxOut)

/-- The same blocks on a plain map, with the outputs they spend in input order. -/
def plainRun : List StackedBlock → List UtxoOp → List StackedBlock × List (List SpentTxOut)
  | chain, [] => (chain, [])
  | chain, .connectBlock stacked :: rest =>
    let (final, journals) := plainRun (chain ++ [stacked]) rest
    (final, (plainSet rules origin chain).coinsAll
      (blockTransfers rules stacked.height stacked.block.transactions) :: journals)
  | chain, _ :: rest =>
    let (final, journals) := plainRun chain rest
    (final, [] :: journals)

/-- Every block that is connected is valid on the chain below it. -/
def ValidOps : List StackedBlock → List UtxoOp → Prop
  | _, [] => True
  | chain, .connectBlock stacked :: rest =>
    ValidBlock rules blockHash base origin chain stacked ∧ ValidOps (chain ++ [stacked]) rest
  | chain, _ :: rest => ValidOps chain rest

end Run

section Refinement

variable {memory : MemoryRules} {rules : TxRules} {blockHash : MsgBlock → Hash}
  {base : Hash} {maxTotalMemoryUsage : UInt64} {origin : Ledger OutPoint SpentTxOut}
  {node : UtxoNode} {db : ChainDb} {chain : List StackedBlock}

structure UtxoNode.Refines (rules : TxRules) (blockHash : MsgBlock → Hash) (base : Hash)
    (origin : Ledger OutPoint SpentTxOut) (node : UtxoNode) (chain : List StackedBlock) : Prop where
  mainChain : node.db.mainChain = chain
  tracks : Tracks rules blockHash base origin node.cache node.db chain
  valid : ValidChain rules blockHash base origin chain

theorem startNode_of_startable (startup : Startup)
    (startable : Startable rules blockHash base origin db)
    (valid : ValidChain rules blockHash base origin db.mainChain) :
    ∃ node, startNode memory rules blockHash base maxTotalMemoryUsage startup db = .ok node ∧
      node.Refines rules blockHash base origin db.mainChain := by
  obtain ⟨after, written, result, equation, kept, -, reaches, completes⟩ :=
    @initConsistentState_spec memory rules blockHash base origin db startup none
      maxTotalMemoryUsage startable valid
  rw [completes rfl] at equation reaches
  refine ⟨⟨after, written⟩, ?_, kept, reaches rfl, valid⟩
  rw [startNode, start, equation]

theorem startable_afterInterrupts (interrupted : List (Startup × Nat))
    (startable : Startable rules blockHash base origin db)
    (valid : ValidChain rules blockHash base origin db.mainChain) :
    Startable rules blockHash base origin (afterInterrupts memory rules blockHash base
        maxTotalMemoryUsage interrupted db) ∧
      (afterInterrupts memory rules blockHash base maxTotalMemoryUsage interrupted
        db).mainChain = db.mainChain := by
  induction interrupted generalizing db with
  | nil => exact ⟨startable, rfl⟩
  | cons attempt rest ih =>
    obtain ⟨after, written, result, equation, kept, recorded, -⟩ :=
      @initConsistentState_spec memory rules blockHash base origin db attempt.1
        (some attempt.2) maxTotalMemoryUsage startable valid
    have left : (start memory rules blockHash base maxTotalMemoryUsage attempt.1
        (some attempt.2) db).2.1 = written := by
      rw [start, equation]
    rw [afterInterrupts, List.foldl_cons, ← afterInterrupts]
    simp only [left]
    obtain ⟨again, same⟩ := @ih written (.inl (kept.symm ▸ recorded)) (kept.symm ▸ valid)
    exact ⟨again, same.trans kept⟩

section

variable (refines : node.Refines rules blockHash base origin chain)
include refines

theorem UtxoNode.Refines.startable : Startable rules blockHash base origin node.db := by
  left
  rw [refines.mainChain]
  exact refines.tracks.recorded

theorem UtxoNode.Refines.step (op : UtxoOp) (rest : List UtxoOp)
    (valid : ValidOps rules blockHash base origin chain (op :: rest)) :
    ∃ next stxos grown, node.step memory rules blockHash base maxTotalMemoryUsage op =
        .ok (next, stxos) ∧ next.Refines rules blockHash base origin grown ∧
      ValidOps rules blockHash base origin grown rest ∧ plainRun rules origin chain (op :: rest) =
        ((plainRun rules origin grown rest).1, stxos :: (plainRun rules origin grown rest).2) := by
  obtain ⟨mainChain, tracks, validChain⟩ := refines
  cases op with
  | fetchEntries outPoints =>
    have reads : (node.cache.missing outPoints).any (fun _ => false) = false :=
      List.any_eq_false.mpr fun _ _ => Bool.false_ne_true
    obtain ⟨after, equation, read⟩ :=
      @fetchEntries_of_reads memory node.cache node.db.utxos _ outPoints reads
    refine ⟨⟨after, node.db⟩, [], chain, ?_, ⟨mainChain,
      ⟨tracks.stands.fetched read, tracks.recorded⟩, validChain⟩, valid, rfl⟩
    rw [UtxoNode.step, equation]
  | connectBlock stacked =>
    obtain ⟨after, equation, tracksBlock⟩ :=
      @Tracks.connect memory rules blockHash base origin _ _ chain stacked tracks valid.1
    refine ⟨⟨after, { node.db with mainChain := node.db.mainChain ++ [stacked] }⟩, _,
      chain ++ [stacked], ?_, ⟨congrArg (· ++ [stacked]) mainChain,
        ⟨tracksBlock.stands, tracksBlock.recorded⟩, validChain.concat valid.1⟩, valid.2, rfl⟩
    rw [UtxoNode.step, equation]
  | flush mode order now =>
    obtain ⟨after, written, equation, tracksFlushed, kept⟩ :=
      @Tracks.flush memory rules blockHash base origin _ _ chain tracks order now mode
    refine ⟨⟨after, written⟩, [], chain, ?_, ⟨kept.trans mainChain, tracksFlushed,
      validChain⟩, valid, rfl⟩
    rw [UtxoNode.step, mainChain, equation]
  | restart interrupted startup =>
    obtain ⟨startable, kept⟩ := @startable_afterInterrupts memory rules blockHash base
      maxTotalMemoryUsage origin node.db interrupted
      (UtxoNode.Refines.startable ⟨mainChain, tracks, validChain⟩) (mainChain.symm ▸ validChain)
    rw [mainChain] at kept
    obtain ⟨next, equation, refines⟩ := @startNode_of_startable memory rules blockHash base
      maxTotalMemoryUsage origin _ startup startable (kept.symm ▸ validChain)
    rw [kept] at refines
    refine ⟨next, [], chain, ?_, refines, valid, rfl⟩
    rw [UtxoNode.step, equation]

theorem UtxoNode.Refines.run
    (ops : List UtxoOp) (valid : ValidOps rules blockHash base origin chain ops) :
    ∃ last, node.run memory rules blockHash base maxTotalMemoryUsage ops =
        .ok (last, (plainRun rules origin chain ops).2) ∧
      last.Refines rules blockHash base origin (plainRun rules origin chain ops).1 := by
  induction ops generalizing node chain with
  | nil => exact ⟨node, rfl, refines⟩
  | cons op rest ih =>
    obtain ⟨next, stxos, grown, equation, refinesNext, validRest, plain⟩ :=
      @UtxoNode.Refines.step memory rules blockHash base maxTotalMemoryUsage origin node
        chain refines op rest valid
    obtain ⟨last, ran, refinesLast⟩ := ih refinesNext validRest
    rw [UtxoNode.run, equation, plain]
    simp only [ran]
    exact ⟨last, rfl, refinesLast⟩

end

/-- Whatever is read, connected, flushed and restarted, the cache over the database is the
plain set of the blocks connected, the database and the blocks above its recorded hash give
that set, and every journal holds the outputs spent in input order. -/
theorem utxoCache_refines_plainSet (origin : Ledger OutPoint SpentTxOut)
    (status : Option Hash) (startup : Startup) (ops : List UtxoOp)
    (consistent : status = none ∨ status = some base)
    (valid : ValidOps rules blockHash base origin [] ops) :
    ∃ first last, startNode memory rules blockHash base maxTotalMemoryUsage startup
        ⟨origin, status, []⟩ = .ok first ∧
      first.run memory rules blockHash base maxTotalMemoryUsage ops =
        .ok (last, (plainRun rules origin [] ops).2) ∧
      last.db.mainChain = (plainRun rules origin [] ops).1 ∧
      last.cache.logical last.db = plainSet rules origin last.db.mainChain ∧
      ∃ hash blocks, last.db.utxoStateConsistency = some hash ∧
        blocksAfter blockHash hash base last.db.mainChain = some blocks ∧
        last.db.utxos.applyAll (stackTransfers rules blocks) =
          plainSet rules origin last.db.mainChain := by
  have startable : Startable rules blockHash base origin ⟨origin, status, []⟩ := by
    rcases consistent with rfl | rfl
    · exact .inr ⟨rfl, rfl⟩
    · exact .inl ⟨[], [], rfl, rfl, rfl⟩
  obtain ⟨first, started, refinesFirst⟩ := @startNode_of_startable memory rules blockHash base
    maxTotalMemoryUsage origin _ startup startable validChain_nil
  obtain ⟨last, ran, mainChain, tracks, validChain⟩ :=
    @UtxoNode.Refines.run memory rules blockHash base maxTotalMemoryUsage origin first []
      refinesFirst ops valid
  refine ⟨first, last, started, ran, mainChain, ?_, ?_⟩
  · rw [mainChain]
    exact tracks.stands.overlay
  · obtain ⟨before, after, split, recorded, utxos⟩ := tracks.recorded
    refine ⟨_, after, recorded, ?_, ?_⟩
    · rw [mainChain, split]
      exact blocksAfter_tipHash (split ▸ validChain.nodup)
    · rw [mainChain, split, plainSet_append, utxos]

end Refinement

namespace TwoBlocks

def firstRoot : Hash :=
  .ofNat 32 0xd7ef8881d36bcb0936d4b7081b1fcf8fa53db790eb62c6a5375213315e67320c

def secondRoot : Hash :=
  .ofNat 32 0xb4c751ed14913e26da8b2f0ebaa956bdf55e287ed32c1c4b817e90b616952264

def firstHash : Hash :=
  .ofNat 32 0x27e9d4e2d0c5a04634d4e35dd21e719b3ab87bf9ae135856df70a7cdedbd1365

def secondHash : Hash :=
  .ofNat 32 0x9fb16010cdeb1be8f370f216e453dd27ace8b919fb43bfb5b09615c5e1e9f532

def headed (prevBlock merkleRoot : Hash) (transactions : List MsgTx) : MsgBlock where
  msgHeader :=
    { certificate := none
      blockHeader :=
        { version := 1, prevBlock, merkleRoot, timestamp := 0, bits := 0,
          proofCommitment := .zero 32 } }
  auxPow := none
  transactions

def firstBlock : StackedBlock :=
  ⟨headed (.zero 32) firstRoot [coinbase 2, payment], 2⟩

def secondBlock : StackedBlock :=
  ⟨headed firstHash secondRoot [coinbase 3, sweep], 3⟩

def hashBlock (block : MsgBlock) : Hash :=
  if block.msgHeader.blockHeader.merkleRoot = firstRoot then firstHash else secondHash

def memory : MemoryRules where
  calculateRoughMapSize _ := 102498376
  calculateMinEntries _ := 1703937
  scriptCapacity script := UInt64.ofNat script.length

def startup : UtxoCache.Startup :=
  ⟨UtxoCache.MapOrder.asStored, 0⟩

def operations : List UtxoOp :=
  [.fetchEntries [⟨sweepTxid, 0⟩], .connectBlock firstBlock,
    .flush .flushPeriodic UtxoCache.MapOrder.asStored 600000000000,
    .connectBlock secondBlock, .restart [(startup, 0)] startup,
    .flush .flushRequired UtxoCache.MapOrder.asStored 700000000000]

end TwoBlocks

open TwoBlocks in
theorem utxoCache_refines_two_blocks : ∃ first last,
      startNode memory rules hashBlock (.zero 32) 262144000 startup
        ⟨view.entries.unspent, none, []⟩ = .ok first ∧
      first.run memory rules hashBlock (.zero 32) 262144000 operations =
        .ok (last, [[], [⟨250000000000, payout, 1, true⟩], [],
          [⟨200000000000, payout, 2, false⟩, ⟨250000000000, payout, 2, true⟩], [], []]) ∧
      last.db.mainChain = [firstBlock, secondBlock] ∧ last.cache.logical last.db =
        plainSet rules view.entries.unspent [firstBlock, secondBlock] := by
  have valid : ValidOps rules hashBlock (.zero 32) view.entries.unspent [] operations :=
    ⟨⟨by decide, by decide, by decide⟩,
      ⟨by decide, by decide, by decide⟩, trivial⟩
  obtain ⟨first, last, started, ran, mainChain, logical, -⟩ :=
    @utxoCache_refines_plainSet memory rules hashBlock (.zero 32) 262144000
      view.entries.unspent none startup operations (.inl rfl) valid
  have chain : last.db.mainChain = [firstBlock, secondBlock] := mainChain
  have journals : (plainRun rules view.entries.unspent [] operations).2 =
      [[], [⟨250000000000, payout, 1, true⟩], [],
        [⟨200000000000, payout, 2, false⟩, ⟨250000000000, payout, 2, true⟩], [], []] := by
    decide
  rw [journals] at ran
  rw [chain] at logical
  exact ⟨first, last, started, ran, chain, logical⟩

end ModelOS.BlockChain
