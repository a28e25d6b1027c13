import ModelOS.BtcUtil.Tx

namespace ModelOS.BtcUtil

open Data Wire

/-! A block with its serialisation and its wrapped transactions, both made when first
asked for. -/

structure Block where
  msgBlock : MsgBlock
  serializedBlock : Bytes
  transactions : List (Option Tx)
  txnsGenerated : Bool
deriving DecidableEq

def newBlock (msgBlock : MsgBlock) : Block where
  msgBlock := msgBlock
  serializedBlock := []
  transactions := []
  txnsGenerated := false

def blockBytes (block : Block) : Except WireError Bytes × Block :=
  if block.serializedBlock.length ≠ 0 then (.ok block.serializedBlock, block)
  else
    match block.msgBlock.serialize with
    | .error error => (.error error, block)
    | .ok serializedBlock =>
      (.ok serializedBlock, { block with serializedBlock })

/-- The slice that holds the wrapped transactions, made if it is missing. -/
def Block.slots (block : Block) : List (Option Tx) :=
  if block.transactions.length = 0 then
    List.replicate block.msgBlock.transactions.length none
  else block.transactions

def outOfRangeError (txNum : Int) (numTx : Nat) : String :=
  "transaction index " ++ toString txNum ++ " is out of range - max " ++
    toString (UInt64.ofNat numTx - 1)

def blockTx (txNum : Int) (block : Block) : Except String Tx × Block :=
  let numTx := block.msgBlock.transactions.length
  if inRange : ¬ txNum < 0 ∧ txNum.toNat < numTx then
    match block.slots[txNum.toNat]?.join with
    | some tx => (.ok tx, { block with transactions := block.slots })
    | none =>
      let tx := (newTx (block.msgBlock.transactions.get
        ⟨txNum.toNat, inRange.2⟩)).setIndex txNum
      (.ok tx, { block with
        transactions := block.slots.set txNum.toNat (some tx) })
  else (.error (outOfRangeError txNum numTx), block)

/-- The loop over the slots: `offset` moves on only where a transaction is
wrapped here. -/
def wrapTransactions (serializedBlock : Bytes) :
    (offset index : Nat) → List MsgTx → List (Option Tx) → List (Option Tx)
  | offset, index, msgTx :: msgTxs, none :: slots =>
    let tx := (newTx msgTx).setIndex index
    let size := msgTx.serializeSize
    if 0 < serializedBlock.length then
      some (tx.setBytes (slice serializedBlock offset size)) ::
        wrapTransactions serializedBlock (offset + size) (index + 1) msgTxs slots
    else some tx :: wrapTransactions serializedBlock offset (index + 1) msgTxs slots
  | offset, index, _ :: msgTxs, some tx :: slots =>
    some tx :: wrapTransactions serializedBlock offset (index + 1) msgTxs slots
  | _, _, [], slots => slots
  | _, _, _ :: _, [] => []

def blockTransactions (block : Block) : List (Option Tx) × Block :=
  if block.txnsGenerated then (block.transactions, block)
  else
    let transactions := wrapTransactions block.serializedBlock
      (firstTx block.msgBlock) 0 block.msgBlock.transactions block.slots
    (transactions, { block with transactions, txnsGenerated := true })

section Hashes

variable (sha256d : Bytes → Hash)

/-- The hash is remembered in the wrapped transaction. -/
def blockTxHash (txNum : Int) (block : Block) : Except String Hash × Block :=
  match blockTx txNum block with
  | (.error error, block) => (.error error, block)
  | (.ok tx, block) =>
    let (hash, tx) := tx.hash sha256d
    (.ok hash, { block with
      transactions := block.transactions.set txNum.toNat (some tx) })

end Hashes

def blockTxLoc (block : Block) : Outcome WireError (List TxLoc) × Block :=
  match blockBytes block with
  | (.error error, block) => (.failed error, block)
  | (.ok rawMsg, block) => (deserializeTxLoc rawMsg, block)

def newBlockFromBlockAndBytes (msgBlock : MsgBlock) (serializedBlock : Bytes) : Block :=
  (blockTransactions { newBlock msgBlock with serializedBlock }).2

/-- Nothing for bytes that are no block. -/
def newBlockFromBytes (serializedBlock : Bytes) : Option Block :=
  match MsgBlock.deserialize.run scriptSlabSize scriptSlabSize serializedBlock with
  | .done msgBlock _ _ => some (newBlockFromBlockAndBytes msgBlock serializedBlock)
  | _ => none

inductive Call
  | bytes
  | tx (txNum : Int)
  | txHash (txNum : Int)
  | transactions
  | txLoc
deriving DecidableEq

inductive Answer
  | bytes (result : Except WireError Bytes)
  | tx (result : Except String Tx)
  | txHash (result : Except String Hash)
  | transactions (result : List (Option Tx))
  | txLoc (result : Outcome WireError (List TxLoc))

section Calls

variable (sha256d : Bytes → Hash)

def Block.call (block : Block) : Call → Answer × Block
  | .bytes =>
    let (result, block) := blockBytes block
    (.bytes result, block)
  | .tx txNum =>
    let (result, block) := blockTx txNum block
    (.tx result, block)
  | .txHash txNum =>
    let (result, block) := blockTxHash sha256d txNum block
    (.txHash result, block)
  | .transactions =>
    let (result, block) := blockTransactions block
    (.transactions result, block)
  | .txLoc =>
    let (result, block) := blockTxLoc block
    (.txLoc result, block)

def AnswersRightly (msg : MsgBlock) (block : Block) : Call → Answer → Prop
  | .bytes, answer =>
    ∃ bytes, msg.serialize = .ok bytes ∧ answer = .bytes (.ok bytes)
  | .tx txNum, answer => ∀ msgTx, 0 ≤ txNum →
      msg.transactions[txNum.toNat]? = some msgTx →
        ∃ tx, answer = .tx (.ok tx) ∧ tx.Right sha256d msgTx
  | .txHash txNum, answer => ∀ msgTx, 0 ≤ txNum →
      msg.transactions[txNum.toNat]? = some msgTx → answer = .txHash (.ok (msgTx.txHash sha256d))
  | .transactions, answer => ∃ wrapped,
      answer = .transactions (wrapped.map some) ∧
        List.Forall₂ (Tx.Right sha256d) msg.transactions wrapped
  | .txLoc, answer => ∃ raw txLocs slab rest,
      (blockBytes block).1 = .ok raw ∧ answer = .txLoc (.done txLocs slab rest) ∧
        txLocs.map (fun loc => slice raw loc.txStart loc.txLen) =
          msg.transactions.map MsgTx.serialize

def Faithful (msg : MsgBlock) : Block → List Call → Prop
  | _, [] => True
  | block, call :: calls =>
    AnswersRightly sha256d msg block call (block.call sha256d call).1 ∧
      Faithful msg (block.call sha256d call).2 calls

end Calls

def untouched (msg : MsgBlock) (touched : List Int) : List MsgTx :=
  (msg.transactions.zipIdx.filter fun (_, index) => (index : Int) ∉ touched).map Prod.fst

/-- Whether the first call of `Transactions` finds the offsets it counts: with
the bytes cached, the transactions not wrapped yet have to be the first ones. -/
def KeepsOrder (msg : MsgBlock) : (cached : Bool) → (touched : List Int) → List Call → Prop
  | _, _, [] => True
  | _, touched, .bytes :: calls => KeepsOrder msg true touched calls
  | _, touched, .txLoc :: calls => KeepsOrder msg true touched calls
  | cached, touched, .tx txNum :: calls =>
    KeepsOrder msg cached (txNum :: touched) calls
  | cached, touched, .txHash txNum :: calls =>
    KeepsOrder msg cached (txNum :: touched) calls
  | cached, touched, .transactions :: _ =>
    cached → untouched msg touched <+: msg.transactions

end ModelOS.BtcUtil
