import ModelOS.BlockChain.AcceptedChain
import ModelOS.BlockChain.BestChain
import ModelOS.BlockChain.SkipList
import ModelOS.Wire.BlockEncode

namespace ModelOS.BlockChain

open Data Wire

/-! The snapshot in memory, the best state in the database and its index of the main
chain. -/

structure BestState where
  hash : Hash
  height : Int32
  bits : UInt32
  blockSize : UInt64
  blockVsize : UInt64
  numTxns : UInt64
  totalTxns : UInt64
  medianTime : Nat
  blockTime : Nat

structure BestChainState where
  hash : Hash
  height : UInt32
  totalTxns : UInt64
  workSum : Int
deriving DecidableEq

structure ChainRecord where
  stateSnapshot : BestState
  bestChainState : BestChainState
  hashIndex : Hash → Option UInt32
  heightIndex : UInt32 → Option Hash

structure RecordedChain where
  chain : Chain
  record : ChainRecord

def dbPutBestState (record : ChainRecord) (snapshot : BestState) (workSum : Int) : ChainRecord :=
  { record with
    bestChainState :=
      ⟨snapshot.hash, snapshot.height.toUInt32, snapshot.totalTxns, workSum⟩ }

def dbPutBlockIndex (record : ChainRecord) (hash : Hash) (height : Int32) : ChainRecord :=
  { record with
    hashIndex := Function.update record.hashIndex hash (some height.toUInt32)
    heightIndex := Function.update record.heightIndex height.toUInt32 (some hash) }

def dbRemoveBlockIndex (record : ChainRecord) (hash : Hash) (height : Int32) : ChainRecord :=
  { record with
    hashIndex := Function.update record.hashIndex hash none
    heightIndex := Function.update record.heightIndex height.toUInt32 none }

namespace RecordedChain

variable (rules : ChainRules)

def newBestState (node : BlockNode) (blockSize blockVsize numTxns totalTxns : UInt64)
    (medianTime blockTime : Nat) : BestState where
  hash := node.hash rules.sha256d
  height := node.height
  bits := node.header.bits
  blockSize
  blockVsize
  numTxns
  totalTxns
  medianTime
  blockTime

def numTxns (block : MsgBlock) : UInt64 :=
  UInt64.ofNat block.transactions.length

def blockSize (block : MsgBlock) : UInt64 :=
  UInt64.ofNat block.serializeSize

def blockVsize (block : MsgBlock) : UInt64 :=
  UInt64.ofNat (rules.getBlockVsize block)

/-- The median time of the genesis block is its own time. -/
def createChainState (genesis : MsgBlock) : RecordedChain :=
  let node := BlockNode.genesis genesis
  let timestamp := node.header.timestamp.toNat
  let snapshot := newBestState rules node (blockSize genesis) (blockVsize rules genesis)
    (numTxns genesis) (numTxns genesis) timestamp timestamp
  let empty : ChainRecord := ⟨snapshot, ⟨.zero 32, 0, 0, 0⟩, fun _ => none, fun _ => none⟩
  let indexed := dbPutBlockIndex empty (node.hash rules.sha256d) node.height
  ⟨.initial rules genesis, dbPutBestState indexed snapshot node.workSum⟩

def connectBlock (state : RecordedChain) (node : BlockNode)
    (stxos : List SpentTxOut) : RecordedChain × Except ChainError Unit :=
  match BlockChain.connectBlock rules state.chain node stxos with
  | (chain, .error error) => ({ state with chain }, .error error)
  | (chain, .ok ()) =>
    let curTotalTxns := state.record.stateSnapshot.totalTxns
    let snapshot := newBestState rules node (blockSize node.block)
      (blockVsize rules node.block) (numTxns node.block)
      (curTotalTxns + numTxns node.block) (calcPastMedianTime node)
      node.header.timestamp.toNat
    let stored := dbPutBestState state.record snapshot node.workSum
    let indexed := dbPutBlockIndex stored (node.hash rules.sha256d) node.height
    (⟨chain, { indexed with stateSnapshot := snapshot }⟩, .ok ())

/-- The work sum that is stored is that of the block that is disconnected. -/
def disconnectBlock (state : RecordedChain) (node : BlockNode) (view : UtxoViewpoint) :
    RecordedChain × Except ChainError Unit :=
  match BlockChain.disconnectBlock rules state.chain node view, node.parent? with
  | (chain, .ok ()), some prevNode =>
    let newTotalTxns := state.record.stateSnapshot.totalTxns - numTxns node.block
    let snapshot := newBestState rules prevNode (blockSize prevNode.block)
      (blockVsize rules prevNode.block) (numTxns prevNode.block) newTotalTxns
      (calcPastMedianTime prevNode) prevNode.header.timestamp.toNat
    let stored := dbPutBestState state.record snapshot node.workSum
    let indexed := dbRemoveBlockIndex stored (node.hash rules.sha256d) node.height
    (⟨chain, { indexed with stateSnapshot := snapshot }⟩, .ok ())
  | (chain, result), _ => ({ state with chain }, result)

end RecordedChain

section Listing

variable {Key Value : Type} [DecidableEq Key] {key : Key} {value : Value}
  {entries : List (Key × Value)}

def listed : List (Key × Value) → Key → Option Value
  | [] => fun _ => none
  | (key, value) :: rest => Function.update (listed rest) key (some value)

theorem listed_eq_none (fresh : key ∉ entries.map Prod.fst) : listed entries key = none := by
  induction entries with
  | nil => rfl
  | cons entry rest ih =>
    rw [List.map_cons, List.mem_cons, not_or] at fresh
    rw [listed, Function.update_of_ne fresh.1]
    exact ih fresh.2

theorem listed_eq_some_iff (nodup : (entries.map Prod.fst).Nodup) :
    listed entries key = some value ↔ (key, value) ∈ entries := by
  induction entries with
  | nil => simp [listed]
  | cons entry rest ih =>
    rw [List.map_cons, List.nodup_cons] at nodup
    rw [listed, List.mem_cons, ← ih nodup.2]
    by_cases here : key = entry.1
    · subst here
      rw [Function.update_self, listed_eq_none nodup.1]
      simp [Prod.ext_iff, eq_comm]
    · rw [Function.update_of_ne here]
      simp [Prod.ext_iff, here]

theorem update_listed_cons (fresh : key ∉ entries.map Prod.fst) :
    Function.update (listed ((key, value) :: entries)) key none = listed entries := by
  rw [listed, Function.update_idem, ← listed_eq_none fresh, Function.update_eq_self]

end Listing

namespace BlockNode

def totalTxns : BlockNode → UInt64
  | genesis block => RecordedChain.numTxns block
  | child parent block => parent.totalTxns + RecordedChain.numTxns block

def bestState (rules : ChainRules) (node : BlockNode) : BestState :=
  RecordedChain.newBestState rules node (RecordedChain.blockSize node.block)
    (RecordedChain.blockVsize rules node.block) (RecordedChain.numTxns node.block)
    node.totalTxns (calcPastMedianTime node) node.header.timestamp.toNat

def byHash (sha256d : Bytes → Hash) (node : BlockNode) : List (Hash × UInt32) :=
  node.ancestors.map fun node => (node.hash sha256d, node.height.toUInt32)

def byHeight (sha256d : Bytes → Hash) (node : BlockNode) : List (UInt32 × Hash) :=
  node.ancestors.map fun node => (node.height.toUInt32, node.hash sha256d)

def record (rules : ChainRules) (node : BlockNode) (workSum : Int) : ChainRecord where
  stateSnapshot := node.bestState rules
  bestChainState := ⟨node.hash rules.sha256d, node.height.toUInt32, node.totalTxns, workSum⟩
  hashIndex := listed (node.byHash rules.sha256d)
  heightIndex := listed (node.byHeight rules.sha256d)

theorem eq_of_toUInt32_height {first second tip : BlockNode}
    (low : tip.ancestors.length ≤ 2 ^ 31) (firstMember : first ∈ tip.ancestors)
    (secondMember : second ∈ tip.ancestors)
    (same : first.height.toUInt32 = second.height.toUInt32) : first = second := by
  apply eq_of_length_ancestors firstMember secondMember
  have firstHeight := toInt_height ((length_ancestors_le firstMember).trans low)
  have secondHeight := toInt_height ((length_ancestors_le secondMember).trans low)
  have heights : first.height = second.height := congrArg Int32.ofUInt32 same
  rw [heights] at firstHeight
  omega

theorem nodup_ancestors (node : BlockNode) : node.ancestors.Nodup := by
  induction node with
  | genesis block => exact List.nodup_singleton _
  | child parent block ih =>
    exact List.nodup_cons.mpr ⟨child_not_mem_ancestors, ih⟩

theorem calcPastMedianTime_genesis (block : MsgBlock) :
    calcPastMedianTime (genesis block) = (genesis block).header.timestamp.toNat := by
  simp [calcPastMedianTime, ancestors, medianTimeBlocks]

end BlockNode

/-- The nodes of a block index: one for each hash, and each on top of the one that its
header names.  Heights fit their machine word. -/
structure NodeIndex (sha256d : Bytes → Hash) (genesis : MsgBlock) where
  nodes : Set BlockNode
  genesis_mem : .genesis genesis ∈ nodes
  parent_mem : ∀ node ∈ nodes, ∀ prev, node.parent? = some prev → prev ∈ nodes
  parent_of_prevBlock : ∀ node ∈ nodes, ∀ prev ∈ nodes,
    node.header.prevBlock = prev.hash sha256d → node.parent? = some prev
  hash_injOn : Set.InjOn (BlockNode.hash sha256d) nodes
  int32 : ∀ node ∈ nodes, node.ancestors.length ≤ 2 ^ 31

namespace NodeIndex

variable {sha256d : Bytes → Hash} {genesis : MsgBlock} (index : NodeIndex sha256d genesis)
  {tip : BlockNode}

theorem ancestors_subset (known : tip ∈ index.nodes) :
    ∀ node ∈ tip.ancestors, node ∈ index.nodes := by
  induction tip with
  | genesis block =>
    intro node member
    rwa [List.mem_singleton.mp member]
  | child parent block ih =>
    intro node member
    rcases List.mem_cons.mp member with rfl | below
    · exact known
    · exact ih (index.parent_mem _ known parent rfl) node below

theorem nodup_byHash (known : tip ∈ index.nodes) : ((tip.byHash sha256d).map Prod.fst).Nodup := by
  rw [BlockNode.byHash, List.map_map]
  apply tip.nodup_ancestors.map_on
  intro first firstMember second secondMember same
  exact index.hash_injOn (index.ancestors_subset known _ firstMember)
    (index.ancestors_subset known _ secondMember) same

theorem nodup_byHeight (known : tip ∈ index.nodes) :
    ((tip.byHeight sha256d).map Prod.fst).Nodup := by
  rw [BlockNode.byHeight, List.map_map]
  apply tip.nodup_ancestors.map_on
  intro first firstMember second secondMember same
  exact BlockNode.eq_of_toUInt32_height (index.int32 _ known) firstMember secondMember same

theorem removed_tables
    (known : .child parent block ∈ index.nodes) :
    Function.update (listed ((BlockNode.child parent block).byHash sha256d))
        ((BlockNode.child parent block).hash sha256d) none = listed (parent.byHash sha256d) ∧
    Function.update (listed ((BlockNode.child parent block).byHeight sha256d))
        (BlockNode.child parent block).height.toUInt32 none = listed (parent.byHeight sha256d) := by
  have hashes := index.nodup_byHash known
  have heights := index.nodup_byHeight known
  rw [BlockNode.byHash, BlockNode.ancestors, List.map_cons, List.map_cons,
    List.nodup_cons] at hashes
  rw [BlockNode.byHeight, BlockNode.ancestors, List.map_cons, List.map_cons,
    List.nodup_cons] at heights
  exact ⟨update_listed_cons hashes.1, update_listed_cons heights.1⟩

end NodeIndex

inductive TipCall
  | connect (node : BlockNode) (stxos : List SpentTxOut)
  | disconnect (node : BlockNode) (view : UtxoViewpoint)

namespace TipCall

def node : TipCall → BlockNode
  | connect node _ => node
  | disconnect node _ => node

def isConnect : TipCall → Bool
  | connect _ _ => true
  | disconnect _ _ => false

def perform (rules : ChainRules) (state : RecordedChain) :
    TipCall → RecordedChain × Except ChainError Unit
  | connect node stxos => state.connectBlock rules node stxos
  | disconnect node view => state.disconnectBlock rules node view

end TipCall

/-- The calls since the chain state was created, the latest first, and where they led. -/
inductive Recorded (rules : ChainRules) (genesis : MsgBlock)
    (index : NodeIndex rules.sha256d genesis) : List TipCall → RecordedChain → Prop
  | created : Recorded rules genesis index [] (.createChainState rules genesis)
  | called {calls : List TipCall} {before after : RecordedChain} {call : TipCall}
      (earlier : Recorded rules genesis index calls before) (known : call.node ∈ index.nodes)
      (ok : call.perform rules before = (after, .ok ())) :
      Recorded rules genesis index (call :: calls) after

/-- The work of the block that the latest call disconnected, if it was a disconnection. -/
def surplus : List TipCall → Int
  | [] => 0
  | .connect _ _ :: _ => 0
  | .disconnect node _ :: _ => calcWork node.header.bits

section Records

variable {rules : ChainRules} {before after : RecordedChain} {node : BlockNode}

theorem connectBlock_ok
    (ok : before.connectBlock rules node stxos = (after, .ok ())) :
    node.header.prevBlock = before.chain.tip.hash rules.sha256d ∧ after.chain.tip = node ∧
    ∀ work, node.parent? = some before.chain.tip →
      before.record = before.chain.tip.record rules work →
      after.record = node.record rules node.workSum := by
  simp only [RecordedChain.connectBlock, connectBlock] at ok
  by_cases extending : node.header.prevBlock = before.chain.tip.hash rules.sha256d
  · by_cases counted : stxos.length = countSpentOutputs node.block.transactions
    · simp only [extending, counted, ne_eq, not_true_eq_false, if_false,
        Prod.mk.injEq, and_true] at ok
      subst ok
      refine ⟨extending, rfl, fun work parent record => ?_⟩
      cases node with
      | genesis block => cases parent
      | child prev block =>
        cases parent
        simp only [record]
        rfl
    · simp [extending, counted] at ok
  · simp [extending] at ok

theorem disconnectBlock_ok
    (ok : before.disconnectBlock rules node view = (after, .ok ())) :
    node.hash rules.sha256d = before.chain.tip.hash rules.sha256d ∧
    node.parent? = some after.chain.tip := by
  simp only [RecordedChain.disconnectBlock, disconnectBlock] at ok
  by_cases atTip : node.hash rules.sha256d = before.chain.tip.hash rules.sha256d
  · cases node with
    | genesis block => simp [atTip] at ok
    | child prev block =>
      simp only [atTip, BlockNode.parent?, ne_eq, not_true_eq_false, if_false,
        Prod.mk.injEq, and_true] at ok
      subst ok
      exact ⟨atTip, rfl⟩
  · simp [atTip] at ok

theorem disconnectBlock_record
    (index : NodeIndex rules.sha256d genesis) (known : .child parent block ∈ index.nodes)
    (tip : before.chain.tip = .child parent block)
    (record : before.record = (BlockNode.child parent block).record rules work)
    (ok : before.disconnectBlock rules (.child parent block) view = (after, .ok ())) :
    after.record = parent.record rules (BlockNode.child parent block).workSum := by
  have total : (BlockNode.child parent block).totalTxns - RecordedChain.numTxns block =
      parent.totalTxns := add_sub_cancel_right parent.totalTxns (RecordedChain.numTxns block)
  obtain ⟨hashes, heights⟩ := index.removed_tables known
  simp only [RecordedChain.disconnectBlock, disconnectBlock, tip, BlockNode.parent?,
    ne_eq, not_true_eq_false, if_false, Prod.mk.injEq, and_true] at ok
  subst ok
  simp only [record, dbPutBestState, dbRemoveBlockIndex, BlockNode.record, hashes, heights,
    BlockNode.bestState, RecordedChain.newBestState, BlockNode.block, total]

variable {genesis : MsgBlock} {index : NodeIndex rules.sha256d genesis}
  {calls : List TipCall} {state : RecordedChain}

theorem record_createChainState (rules : ChainRules) (genesis : MsgBlock) :
    (RecordedChain.createChainState rules genesis).record =
      (BlockNode.genesis genesis).record rules (BlockNode.genesis genesis).workSum := by
  simp only [BlockNode.record, BlockNode.bestState, BlockNode.calcPastMedianTime_genesis]
  rfl

/-- The record is that of the tip, but for the work of a block just disconnected. -/
theorem Recorded.record_eq (run : Recorded rules genesis index calls state) :
    state.chain.tip ∈ index.nodes ∧ state.record =
      state.chain.tip.record rules (state.chain.tip.workSum + surplus calls) := by
  induction run with
  | created =>
    refine ⟨index.genesis_mem, ?_⟩
    rw [surplus, add_zero]
    exact record_createChainState rules genesis
  | @called calls before after call earlier known ok ih =>
    obtain ⟨tipKnown, record⟩ := ih
    cases call with
    | connect node stxos =>
      obtain ⟨extending, rfl, recorded⟩ := connectBlock_ok ok
      refine ⟨known, ?_⟩
      rw [surplus, add_zero]
      exact recorded _ (index.parent_of_prevBlock _ known _ tipKnown extending) record
    | disconnect node view =>
      obtain ⟨atTip, parent⟩ := disconnectBlock_ok ok
      have tip : node = before.chain.tip := index.hash_injOn known tipKnown atTip
      refine ⟨index.parent_mem node known _ parent, ?_⟩
      cases node with
      | genesis block => cases parent
      | child prev block =>
        cases parent
        exact disconnectBlock_record index known tip.symm (tip ▸ record) ok

end Records

/-- Two ways to the same tip, one of them without a disconnection, leave the same record:
always but for the work sum in the database, and with it unless the last call of the
other disconnected a block that has work. -/
theorem recorded_state_iff (rules : ChainRules) (genesis : MsgBlock)
    (index : NodeIndex rules.sha256d genesis) {calls straight : List TipCall}
    {state fresh : RecordedChain} (run : Recorded rules genesis index calls state)
    (direct : Recorded rules genesis index straight fresh)
    (forwards : ∀ call ∈ straight, call.isConnect) (sameTip : fresh.chain.tip = state.chain.tip) :
    (state.record = fresh.record ↔ surplus calls = 0) ∧ state.record =
      { fresh.record with
        bestChainState := { fresh.record.bestChainState with
          workSum := fresh.record.bestChainState.workSum + surplus calls } } ∧
    (∀ hash height, state.record.hashIndex hash = some height ↔ ∃ node ∈ state.chain.tip.ancestors,
        node.hash rules.sha256d = hash ∧ node.height.toUInt32 = height) ∧
    (∀ height hash, state.record.heightIndex height = some hash ↔
      ∃ node ∈ state.chain.tip.ancestors,
        node.height.toUInt32 = height ∧ node.hash rules.sha256d = hash) := by
  obtain ⟨known, record⟩ := run.record_eq
  have settled : surplus straight = 0 := by
    cases straight with
    | nil => rfl
    | cons call earlier =>
      cases call with
      | connect node stxos => rfl
      | disconnect node view =>
        exact absurd (forwards _ (.head _)) Bool.false_ne_true
  have freshRecord := direct.record_eq.2
  rw [settled, add_zero, sameTip] at freshRecord
  refine ⟨?_, ?_, ?_, ?_⟩
  · rw [record, freshRecord]
    constructor
    · intro same
      have works := congrArg (fun record => record.bestChainState.workSum) same
      exact add_eq_left.mp works
    · intro none
      rw [none, add_zero]
  · rw [record, freshRecord]
    rfl
  · intro hash height
    rw [record]
    refine (listed_eq_some_iff (index.nodup_byHash known)).trans ?_
    simp [BlockNode.byHash]
  · intro height hash
    rw [record]
    refine (listed_eq_some_iff (index.nodup_byHeight known)).trans ?_
    simp [BlockNode.byHeight]

namespace BestStateExample

open SimNetExample

theorem hash_firstNode : firstNode.hash rules.sha256d ≠
    (BlockNode.genesis genesisBlock).hash rules.sha256d ∧
    firstNode.header.prevBlock = (BlockNode.genesis genesisBlock).hash rules.sha256d ∧
    firstNode.header.prevBlock ≠ firstNode.hash rules.sha256d ∧
    ∀ node ∈ [.genesis genesisBlock, firstNode],
      (BlockNode.genesis genesisBlock).header.prevBlock ≠ node.hash rules.sha256d := by
  decide

def index : NodeIndex rules.sha256d genesisBlock where
  nodes := {.genesis genesisBlock, firstNode}
  genesis_mem := .inl rfl
  parent_mem := by
    rintro node (rfl | rfl) prev parent
    · cases parent
    · exact .inl (Option.some.inj parent).symm
  parent_of_prevBlock := by
    obtain ⟨_, _, notSelf, noParent⟩ := hash_firstNode
    rintro node (rfl | rfl) prev (rfl | rfl) named
    · exact absurd named (noParent _ (.head _))
    · exact absurd named (noParent _ (.tail _ (.head _)))
    · rfl
    · exact absurd named notSelf
  hash_injOn := by
    rintro first (rfl | rfl) second (rfl | rfl) same
    · rfl
    · exact absurd same.symm hash_firstNode.1
    · exact absurd same hash_firstNode.1
    · rfl
  int32 := by
    rintro node (rfl | rfl)
    · decide
    · decide

def created : RecordedChain := .createChainState rules genesisBlock

def view : UtxoViewpoint := ⟨fun _ => none, genesisHash⟩

def connect : TipCall := .connect firstNode []

def disconnect : TipCall := .disconnect firstNode view

def connected : RecordedChain := (connect.perform rules created).1

def disconnected : RecordedChain := (disconnect.perform rules connected).1

def reconnected : RecordedChain := (connect.perform rules disconnected).1

theorem performs : (connect.perform rules created).2 = .ok () ∧
    (disconnect.perform rules connected).2 = .ok () ∧
    (connect.perform rules disconnected).2 = .ok () := by
  decide

theorem run_connected : Recorded rules genesisBlock index [connect] connected :=
  .called .created (.inr rfl) (Prod.ext rfl performs.1)

theorem run_disconnected : Recorded rules genesisBlock index [disconnect, connect] disconnected :=
  .called run_connected (.inr rfl) (Prod.ext rfl performs.2.1)

theorem run_reconnected :
    Recorded rules genesisBlock index [connect, disconnect, connect] reconnected :=
  .called run_disconnected (.inr rfl) (Prod.ext rfl performs.2.2)

end BestStateExample

open BestStateExample in
/-- Connecting a block, disconnecting it and connecting it again. -/
theorem recorded_state_reconnected : reconnected.record = connected.record :=
  (recorded_state_iff SimNetExample.rules SimNetExample.genesisBlock index run_reconnected
    run_connected (by simp [connect, TipCall.isConnect]) rfl).1.mpr rfl

open BestStateExample in
/-- A block is connected and disconnected.  The tip is the genesis block again, but the
work sum in the database is that of two blocks. -/
theorem disconnected_work_kept :
    Recorded SimNetExample.rules SimNetExample.genesisBlock index [disconnect, connect]
      disconnected ∧ disconnected.chain.tip = created.chain.tip ∧
    disconnected.record.bestChainState ≠ created.record.bestChainState ∧
    disconnected.record.bestChainState.workSum = 2 * created.record.bestChainState.workSum := by
  refine ⟨run_disconnected, rfl, ?_⟩
  decide

end ModelOS.BlockChain
