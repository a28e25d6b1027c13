import ModelOS.BlockChain.RollingMerkle
import ModelOS.BlockChain.Validate

namespace ModelOS.BlockChain

open Data Wire

/-! The header commits to the transactions without their witnesses, and an
output of the coinbase to the witnesses. -/

def coinbaseWitnessDataLen : Nat := 32

def coinbaseWitnessPkScriptLength : Nat := 38

def witnessMagicBytes : Bytes := [0x6a, 0x24, 0xaa, 0x21, 0xa9, 0xed]

/-- The last output that has the form of a commitment counts. -/
def extractWitnessCommitment (tx : MsgTx) : Option Bytes :=
  if isCoinBaseTx tx then
    (tx.txOut.reverse.find? fun txOut =>
      coinbaseWitnessPkScriptLength ≤ txOut.pkScript.length ∧
        witnessMagicBytes.isPrefixOf txOut.pkScript).map fun txOut =>
      slice txOut.pkScript witnessMagicBytes.length
        (coinbaseWitnessPkScriptLength - witnessMagicBytes.length)
  else none

def bytesString (bytes : Bytes) : String :=
  "[" ++ " ".intercalate (bytes.map toString) ++ "]"

section Rules

variable (sha256d : Bytes → Hash)

def witnessMerkleRoot (block : MsgBlock) : Hash :=
  (calcMerkleRoot sha256d (block.transactions.map BtcUtil.newTx) true).getD (FixedBytes.zero 32)

def checkWitnessNonce (block : MsgBlock) (coinbaseWitness : TxWitness)
    (witnessCommitment : Bytes) : Except RuleError Unit := do
  require (coinbaseWitness.length = 1) (ruleError .errInvalidWitnessCommitment
    ("the coinbase transaction has " ++ toString coinbaseWitness.length ++
      " items in its witness stack when only one is allowed"))
  let witnessNonce := coinbaseWitness.headD []
  require (witnessNonce.length = coinbaseWitnessDataLen) (ruleError .errInvalidWitnessCommitment
      ("the coinbase transaction witness nonce has " ++
        toString witnessNonce.length ++ " bytes when it must be " ++
        toString coinbaseWitnessDataLen ++ " bytes"))
  let computedCommitment :=
    (sha256d ((witnessMerkleRoot sha256d block).bytes ++ witnessNonce)).bytes
  require (computedCommitment = witnessCommitment) (ruleError .errWitnessCommitmentMismatch
      ("witness commitment does not match: computed " ++
        bytesString computedCommitment ++ ", coinbase includes " ++ bytesString witnessCommitment))

def validateWitnessCommitment (block : MsgBlock) : Except RuleError Unit :=
  match block.transactions with
  | [] => .error (ruleError .errNoTransactions
      "cannot validate witness commitment of block without transactions")
  | coinbaseTx :: _ =>
    match coinbaseTx.txIn with
    | [] => .error (ruleError .errNoTxInputs "transaction has no inputs")
    | txIn :: _ =>
      match extractWitnessCommitment coinbaseTx with
      | none =>
        require (block.transactions.any MsgTx.hasWitness = false)
          (ruleError .errUnexpectedWitness
            ("block contains transaction with witness data, yet no " ++
              "witness commitment present"))
      | some witnessCommitment =>
        checkWitnessNonce sha256d block txIn.witness witnessCommitment

end Rules

def witnessScaleFactor : Nat := 4

def calcVsize (baseSize witnessSize : Nat) : Nat :=
  baseSize + (witnessSize + witnessScaleFactor - 1) / witnessScaleFactor

def serializeSizeStripped (block : MsgBlock) : Nat :=
  maxBlockHeaderPayload + varIntSerializeSize (UInt64.ofNat block.transactions.length) +
    (block.transactions.map MsgTx.serializeSizeStripped).sum

def serializeWitnessSize (block : MsgBlock) : Nat :=
  (block.transactions.map fun tx =>
    tx.serializeSize - tx.serializeSizeStripped).sum

def getBlockVsize (block : MsgBlock) : Nat :=
  calcVsize (serializeSizeStripped block) (serializeWitnessSize block)

/-- The rules with the source's transaction hashes, Merkle roots, witness
commitments and sizes in the place of arbitrary ones. -/
def committingRules (rules : ChainRules) : ChainRules :=
  { rules with
    txHash := MsgTx.txHash rules.sha256d
    calcMerkleRoot := fun transactions =>
      (calcMerkleRoot rules.sha256d (transactions.map BtcUtil.newTx) false).getD
        (FixedBytes.zero 32)
    validateWitnessCommitment := validateWitnessCommitment rules.sha256d
    getBlockVsize := getBlockVsize }

theorem fits_of_getBlockVsize (size : getBlockVsize block ≤ maxBlockVsize) :
    ∀ tx ∈ block.transactions, tx.Fits := by
  intro tx member
  have base := @size_le_sum _ block.transactions MsgTx.serializeSizeStripped tx member
  have witness := @size_le_sum _ block.transactions
    (fun tx => tx.serializeSize - tx.serializeSizeStripped) tx member
  rw [getBlockVsize, calcVsize, serializeSizeStripped, serializeWitnessSize,
    witnessScaleFactor, maxBlockVsize] at size
  exact MsgTx.fits_of_serializeSize (by omega : tx.serializeSize ≤ 5000000) (by decide)

structure Committed (sha256d : Bytes → Hash) (block : MsgBlock) : Prop where
  coinbaseFirst : ∃ coinbase others, block.transactions = coinbase :: others ∧
    isCoinBaseTx coinbase = true
  fits : ∀ tx ∈ block.transactions, tx.Fits
  hashes : (block.transactions.map (MsgTx.txHash sha256d)).Nodup
  merkleRoot : MerkleRows.root (hashMerkleBranches sha256d)
      (block.transactions.map (MsgTx.txHash sha256d)) = some block.msgHeader.blockHeader.merkleRoot
  witnesses : validateWitnessCommitment sha256d block = .ok ()

/-- A block that is stored: it passes the checks without context and, on top of
its parent and in full, those of `maybeAcceptBlock`. -/
structure PassesChecks (rules : ChainRules) (parent : BlockNode) (block : MsgBlock) : Prop where
  sanity : ∃ adjustedTime flags, checkBlockSanity rules block adjustedTime flags = .ok ()
  context : ∃ flags previousCheckpoint, flags.fastAdd = false ∧
    checkBlockContext rules block parent flags previousCheckpoint = .ok ()

theorem root_isSome (sha256d : Bytes → Hash) (nonempty : row ≠ []) :
    ∃ root, MerkleRows.root (hashMerkleBranches sha256d) row = some root := by
  obtain ⟨digest, top⟩ := @MerkleRows.climb_height _ (hashMerkleBranches sha256d) _ nonempty
  exact ⟨digest, by rw [MerkleRows.root, top]; rfl⟩

theorem PassesChecks.committed (passes : PassesChecks (committingRules rules) parent block) :
    Committed rules.sha256d block := by
  obtain ⟨adjustedTime, flags, sanity⟩ := passes.sanity
  obtain ⟨contextFlags, checkpoint, notFast, context⟩ := passes.context
  obtain ⟨⟨coinbase, others, listed, isCoinBase, _⟩, _, hashes⟩ := sane_of_checkBlockSanity sanity
  have nonempty : block.transactions ≠ [] := by
    rw [listed]
    exact List.cons_ne_nil _ _
  simp only [checkBlockSanity, bind_eq_ok, require_eq_ok, forM_eq_ok] at sanity
  obtain ⟨_, _, _, _, _, _, _, _, _, size, _, _, _, _, _, _, _, root, _⟩ := sanity
  refine ⟨⟨coinbase, others, listed, isCoinBase⟩, fits_of_getBlockVsize size, hashes, ?_, ?_⟩
  · obtain ⟨digest, reached⟩ := root_isSome rules.sha256d
      (fun none => nonempty (List.map_eq_nil_iff.mp none))
    have computed := calcMerkleRoot_newTx rules.sha256d false nonempty
    rw [messageLeaves, RollingMerkleTreeStore.leafHashes_base, reached] at computed
    have header : block.msgHeader.blockHeader.merkleRoot = digest := by
      rw [root]
      exact congrArg (Option.getD · _) computed
    rw [reached, header]
  · simp only [checkBlockContext, notFast, listed, List.head?_cons, bind_eq_ok,
      describe_eq_ok, Bool.false_eq_true, if_false] at context
    obtain ⟨_, _, _, _, _, _, _, _, _, commitment, _⟩ := context
    exact commitment

section Messages

variable (sha256d : Bytes → Hash)

def branchMessage (pair : Hash × Hash) : Bytes :=
  pair.1.bytes ++ pair.2.bytes

def merkleMessages (witness : Bool) (transactions : List MsgTx) : List Bytes :=
  (MerkleRows.rootPairs (hashMerkleBranches sha256d)
    (messageLeaves sha256d witness transactions)).map branchMessage

def witnessMessages (block : MsgBlock) : List Bytes :=
  match block.transactions.head? with
  | none => []
  | some coinbaseTx =>
    match extractWitnessCommitment coinbaseTx with
    | none => []
    | some _ =>
      ((witnessMerkleRoot sha256d block).bytes ++
          ((coinbaseTx.txIn.head?.map TxIn.witness).getD []).headD []) ::
        merkleMessages sha256d true block.transactions

def blockMessages (block : MsgBlock) : List Bytes :=
  writeBlockHeader block.msgHeader.blockHeader ::
    (block.transactions.flatMap MsgTx.messages ++ merkleMessages sha256d false block.transactions ++
      witnessMessages sha256d block)

/-- The double hash has no collision on what is hashed for the two blocks, and
no transaction of theirs serialises to two hashes. -/
structure CollisionFree (first second : MsgBlock) : Prop where
  messages : Set.InjOn sha256d
    {message | message ∈ blockMessages sha256d first ∨
      message ∈ blockMessages sha256d second}
  leaves : ∀ tx ∈ first.transactions ++ second.transactions,
    ∀ left right : Hash, tx.serializeNoWitness ≠ left.bytes ++ right.bytes

theorem collisionFree_self {sha256d : Bytes → Hash} {block : MsgBlock}
    (distinct : ((blockMessages sha256d block).map sha256d).Nodup)
    (lengths : ∀ tx ∈ block.transactions, tx.serializeNoWitness.length ≠ 64) :
    CollisionFree sha256d block block := by
  refine ⟨?_, ?_⟩
  · intro message member other member'
    exact List.inj_on_of_nodup_map distinct (or_self_iff.mp member) (or_self_iff.mp member')
  · intro tx member left right same
    refine lengths tx (or_self_iff.mp (List.mem_append.mp member)) ?_
    rw [same, List.length_append, left.length_bytes, right.length_bytes]

end Messages

section Determined

variable {sha256d : Bytes → Hash} {first second : MsgBlock}

theorem branchMessage_injective : Function.Injective branchMessage := by
  rintro ⟨left, right⟩ ⟨left', right'⟩ equality
  obtain ⟨lefts, rights⟩ := List.append_inj equality (by simp)
  exact Prod.ext (FixedBytes.ext lefts) (FixedBytes.ext rights)

theorem CollisionFree.separates (free : CollisionFree sha256d first second)
    (firstHashed : ∀ pair ∈ firstPairs, branchMessage pair ∈ blockMessages sha256d first)
    (secondHashed : ∀ pair ∈ secondPairs, branchMessage pair ∈ blockMessages sha256d second) :
    MerkleRows.Separates (hashMerkleBranches sha256d) (firstPairs ++ secondPairs) := by
  have hashed : ∀ pair ∈ firstPairs ++ secondPairs,
      branchMessage pair ∈ blockMessages sha256d first ∨
        branchMessage pair ∈ blockMessages sha256d second := by
    intro pair member
    exact (List.mem_append.mp member).imp (firstHashed pair) (secondHashed pair)
  intro pair member other member' same
  exact branchMessage_injective (free.messages (hashed pair member) (hashed other member') same)

variable {block : MsgBlock} {pair : Hash × Hash} {coinbase : MsgTx} {others : List MsgTx}
  {witnessCommitment : Bytes}

theorem message_mem_blockMessages (member : tx ∈ block.transactions)
    (hashed : message ∈ tx.messages) : message ∈ blockMessages sha256d block :=
  .tail _ (List.mem_append_left _ (List.mem_append_left _
    (List.mem_flatMap.mpr ⟨tx, member, hashed⟩)))

theorem branch_mem_blockMessages (below : pair ∈ MerkleRows.rootPairs (hashMerkleBranches sha256d)
      (block.transactions.map (MsgTx.txHash sha256d))) :
    branchMessage pair ∈ blockMessages sha256d block := by
  rw [← @RollingMerkleTreeStore.leafHashes_base _ _ (MsgTx.witnessHash sha256d)] at below
  exact .tail _ (List.mem_append_left _ (List.mem_append_right _ (List.mem_map_of_mem below)))

theorem CollisionFree.leaf_ne (free : CollisionFree sha256d first second)
    (listed : tx ∈ first.transactions ++ second.transactions)
    (hashed : branchMessage pair ∈ blockMessages sha256d first ∨
      branchMessage pair ∈ blockMessages sha256d second) :
    hashMerkleBranches sha256d pair.1 pair.2 ≠ tx.txHash sha256d := by
  intro same
  have message : tx.serializeNoWitness ∈ blockMessages sha256d first ∨
      tx.serializeNoWitness ∈ blockMessages sha256d second := (List.mem_append.mp listed).imp
      (message_mem_blockMessages · (serializeNoWitness_mem_messages tx))
      (message_mem_blockMessages · (serializeNoWitness_mem_messages tx))
  exact free.leaves tx listed pair.1 pair.2 (free.messages hashed message same).symm

theorem stripped_eq_of_merkleRoot_eq (free : CollisionFree sha256d first second)
    (firstCommitted : Committed sha256d first) (secondCommitted : Committed sha256d second)
    (header : first.msgHeader.blockHeader = second.msgHeader.blockHeader) :
    first.transactions.map MsgTx.stripped = second.transactions.map MsgTx.stripped := by
  have nonempty : ∀ {block : MsgBlock}, Committed sha256d block →
      block.transactions.map (MsgTx.txHash sha256d) ≠ [] := by
    intro block committed
    obtain ⟨coinbase, others, listed, _⟩ := committed.coinbaseFirst
    rw [listed]
    exact List.cons_ne_nil _ _
  have hashes : first.transactions.map (MsgTx.txHash sha256d) =
      second.transactions.map (MsgTx.txHash sha256d) := by
    apply MerkleRows.eq_of_root_eq firstCommitted.hashes secondCommitted.hashes
      (nonempty firstCommitted) (nonempty secondCommitted)
    · intro leaf leafMember pair pairMember
      rw [← List.map_append] at leafMember
      obtain ⟨tx, listed, rfl⟩ := List.mem_map.mp leafMember
      exact free.leaf_ne listed ((List.mem_append.mp pairMember).imp
        branch_mem_blockMessages branch_mem_blockMessages)
    · exact free.separates (fun _ => branch_mem_blockMessages) (fun _ => branch_mem_blockMessages)
    · rw [firstCommitted.merkleRoot, secondCommitted.merkleRoot, header]
  apply MerkleRows.map_eq_of_map_eq _ hashes
  intro tx member other member' same
  apply stripped_eq_of_serializeNoWitness_eq (firstCommitted.fits tx member)
    (secondCommitted.fits other member')
  exact free.messages (.inl (message_mem_blockMessages member (serializeNoWitness_mem_messages tx)))
    (.inr (message_mem_blockMessages member' (serializeNoWitness_mem_messages other))) same

theorem extractWitnessCommitment_eq_of_stripped
    (stripped : coinbase.stripped = other.stripped) :
    extractWitnessCommitment coinbase = extractWitnessCommitment other := by
  have unwitnessed : ∀ tx : MsgTx,
      extractWitnessCommitment tx = extractWitnessCommitment tx.stripped := by
    intro tx
    have same : isCoinBaseTx tx = isCoinBaseTx tx.stripped := by
      rw [isCoinBaseTx, isCoinBaseTx, MsgTx.stripped]
      rcases tx.txIn with _ | ⟨txIn, _ | ⟨second, rest⟩⟩
      · rfl
      · rfl
      · rfl
    rw [extractWitnessCommitment, extractWitnessCommitment, same]
    rfl
  rw [unwitnessed, stripped, ← unwitnessed]

theorem txIn_of_isCoinBaseTx (isCoinBase : isCoinBaseTx tx = true) :
    ∃ txIn, tx.txIn = [txIn] := by
  rw [isCoinBaseTx] at isCoinBase
  split at isCoinBase
  · next txIn single => exact ⟨txIn, single⟩
  · cases isCoinBase

theorem Committed.unflagged (committed : Committed sha256d block)
    (listed : block.transactions = coinbase :: others) (isCoinBase : isCoinBaseTx coinbase = true)
    (absent : extractWitnessCommitment coinbase = none) :
    ∀ tx ∈ block.transactions, tx.hasWitness = false := by
  obtain ⟨txIn, single⟩ := txIn_of_isCoinBaseTx isCoinBase
  have checked := committed.witnesses
  rw [validateWitnessCommitment] at checked
  simp only [listed, single, absent, require_eq_ok, List.any_eq_false] at checked
  intro tx member
  rw [listed] at member
  simpa using checked tx member

/-- With a commitment, the coinbase has one input with the nonce as its only
witness, and the commitment is over the witness root and the nonce. -/
theorem Committed.nonce (committed : Committed sha256d block)
    (listed : block.transactions = coinbase :: others) (isCoinBase : isCoinBaseTx coinbase = true)
    (found : extractWitnessCommitment coinbase = some witnessCommitment) :
    ∃ txIn nonce, coinbase.txIn = [txIn] ∧ txIn.witness = [nonce] ∧
      (sha256d ((witnessMerkleRoot sha256d block).bytes ++ nonce)).bytes = witnessCommitment := by
  obtain ⟨txIn, single⟩ := txIn_of_isCoinBaseTx isCoinBase
  have checked := committed.witnesses
  rw [validateWitnessCommitment] at checked
  simp only [listed, single, found, checkWitnessNonce, bind_eq_ok, require_eq_ok] at checked
  obtain ⟨_, one, _, _, commitment⟩ := checked
  obtain ⟨nonce, witness⟩ := List.length_eq_one_iff.mp one
  refine ⟨txIn, nonce, single, witness, ?_⟩
  rw [← commitment, witness]
  rfl

theorem preimage_mem_blockMessages
    (listed : block.transactions = coinbase :: others)
    (found : extractWitnessCommitment coinbase = some witnessCommitment)
    (single : coinbase.txIn = [txIn]) (witness : txIn.witness = [nonce]) :
    (witnessMerkleRoot sha256d block).bytes ++ nonce ∈ blockMessages sha256d block := by
  apply List.mem_cons_of_mem
  apply List.mem_append_right
  simp [witnessMessages, listed, found, single, witness]

theorem witness_branch_mem_blockMessages (listed : block.transactions = coinbase :: others)
    (found : extractWitnessCommitment coinbase = some witnessCommitment)
    (below : pair ∈ MerkleRows.rootPairs (hashMerkleBranches sha256d)
      (messageLeaves sha256d true block.transactions)) :
    branchMessage pair ∈ blockMessages sha256d block := by
  apply List.mem_cons_of_mem
  apply List.mem_append_right
  simp only [witnessMessages, listed, List.head?_cons, found]
  rw [← listed]
  exact .tail _ (List.mem_map_of_mem below)

theorem root_eq_witnessMerkleRoot (nonempty : block.transactions ≠ []) :
    MerkleRows.root (hashMerkleBranches sha256d)
        (messageLeaves sha256d true block.transactions) =
      some (witnessMerkleRoot sha256d block) := by
  have computed := calcMerkleRoot_newTx sha256d true nonempty
  have positive := List.length_pos_iff.mpr nonempty
  obtain ⟨root, reached⟩ := root_isSome sha256d (List.ne_nil_of_length_pos (by
      rwa [RollingMerkleTreeStore.length_leafHashes] :
        0 < (messageLeaves sha256d true block.transactions).length))
  rw [witnessMerkleRoot, computed, reached]
  rfl

theorem transactions_eq_of_header_eq (free : CollisionFree sha256d first second)
    (firstCommitted : Committed sha256d first) (secondCommitted : Committed sha256d second)
    (header : first.msgHeader.blockHeader = second.msgHeader.blockHeader) :
    first.transactions = second.transactions := by
  have stripped := stripped_eq_of_merkleRoot_eq free firstCommitted secondCommitted header
  obtain ⟨coinbase, others, listed, isCoinBase⟩ := firstCommitted.coinbaseFirst
  obtain ⟨coinbase', others', listed', isCoinBase'⟩ := secondCommitted.coinbaseFirst
  have parts := stripped
  rw [listed, listed', List.map_cons, List.map_cons] at parts
  obtain ⟨coinbases, tails⟩ := List.cons.inj parts
  have commitments := extractWitnessCommitment_eq_of_stripped coinbases
  cases found : extractWitnessCommitment coinbase with
  | none =>
    have agree : first.transactions.map id = second.transactions.map id := by
      apply MerkleRows.map_eq_of_map_eq _ stripped
      intro tx member other member' same
      exact eq_of_stripped_eq_of_unflagged same
        (firstCommitted.unflagged listed isCoinBase found tx member)
        (secondCommitted.unflagged listed' isCoinBase' (commitments ▸ found) other member')
    rwa [List.map_id, List.map_id] at agree
  | some witnessCommitment =>
    have found' := commitments ▸ found
    obtain ⟨txIn, nonce, single, witness, committed⟩ := firstCommitted.nonce listed isCoinBase found
    obtain ⟨txIn', nonce', single', witness', committed'⟩ :=
      secondCommitted.nonce listed' isCoinBase' found'
    have preimages := free.messages (.inl (preimage_mem_blockMessages listed found single witness))
      (.inr (preimage_mem_blockMessages listed' found' single' witness'))
      (FixedBytes.ext (committed.trans committed'.symm))
    obtain ⟨roots, nonces⟩ := List.append_inj preimages (by simp)
    have firstRoot := @root_eq_witnessMerkleRoot sha256d first (by simp [listed])
    have secondRoot := @root_eq_witnessMerkleRoot sha256d second (by simp [listed'])
    have length := congrArg List.length stripped
    rw [List.length_map, List.length_map] at length
    have leaves := MerkleRows.eq_of_root_eq_of_length
      (by rw [RollingMerkleTreeStore.length_leafHashes,
        RollingMerkleTreeStore.length_leafHashes, length])
      (free.separates (fun _ => witness_branch_mem_blockMessages listed found)
        (fun _ => witness_branch_mem_blockMessages listed' found'))
      (by rw [firstRoot, secondRoot, FixedBytes.ext roots])
    rw [listed, listed', messageLeaves, messageLeaves,
      RollingMerkleTreeStore.leafHashes_witness, RollingMerkleTreeStore.leafHashes_witness]
      at leaves
    have witnessHashes := (List.cons.inj leaves).2
    have head : coinbase = coinbase' := by
      apply eq_of_stripped_eq coinbases
      rw [single, single', List.map_singleton, List.map_singleton, witness, witness', nonces]
    have tail : others.map id = others'.map id := by
      have both := congrArg₂ List.zip tails witnessHashes
      rw [List.zip_map', List.zip_map'] at both
      apply MerkleRows.map_eq_of_map_eq _ both
      intro tx member other member' same
      obtain ⟨sameBase, sameHash⟩ := Prod.mk.inj same
      have inFirst : tx ∈ first.transactions := by
        rw [listed]
        exact .tail _ member
      have inSecond : other ∈ second.transactions := by
        rw [listed']
        exact .tail _ member'
      refine eq_of_witnessHash_eq (firstCommitted.fits tx inFirst)
        (secondCommitted.fits other inSecond) sameBase (free.messages.mono ?_) sameHash
      intro message
      exact Or.imp (message_mem_blockMessages inFirst) (message_mem_blockMessages inSecond)
    rw [List.map_id, List.map_id] at tail
    rw [listed, listed', head, tail]

end Determined

end ModelOS.BlockChain
