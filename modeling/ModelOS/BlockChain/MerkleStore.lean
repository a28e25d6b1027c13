import ModelOS.BlockChain.RollingMerkle
import ModelOS.BtcUtil.BlockFaithful

namespace ModelOS.BlockChain

open Data Wire RollingMerkleTreeStore

/-- The logarithm is one of floating-point numbers, which is exact for the lengths a slice
of pointers can have. -/
def nextPowerOfTwo (n : Nat) : Nat :=
  if n &&& (n - 1) = 0 then n else 1 <<< (n.log2 + 1)

/-- The loop of `buildMerkleTreeStore` sets one parent in each round, behind the rows
that are complete. -/
def setParent (sha256d : Bytes → Hash) (nextPoT : Nat) (merkles : Nat → Option Hash)
    (round : Nat) : Nat → Option Hash :=
  Function.update merkles (nextPoT + round) (MerkleRows.storeParent
    (hashMerkleBranches sha256d) (merkles (2 * round)) (merkles (2 * round + 1)))

/-- In the tree of witnesses it is the message that is hashed, not the wrapped transaction. -/
def storeLeaves (sha256d : Bytes → Hash) (witness : Bool) (transactions : List BtcUtil.Tx) :
    List Hash :=
  leafHashes (txid sha256d) (fun tx => tx.msgTx.witnessHash sha256d) witness transactions

def buildMerkleTreeStore (sha256d : Bytes → Hash) (transactions : List BtcUtil.Tx)
    (witness : Bool) : List (Option Hash) :=
  let nextPoT := nextPowerOfTwo transactions.length
  let arraySize := nextPoT * 2 - 1
  let leaves := storeLeaves sha256d witness transactions
  (List.range arraySize).map ((List.range (nextPoT - 1)).foldl
    (setParent sha256d nextPoT) fun i => leaves[i]?)

theorem nextPowerOfTwo_eq (positive : 0 < n) : nextPowerOfTwo n = 2 ^ Nat.clog 2 n := by
  have nonzero : n ≠ 0 := Nat.ne_of_gt positive
  unfold nextPowerOfTwo
  split
  · next power =>
    obtain ⟨exponent, rfl⟩ := (Nat.and_sub_one_eq_zero_iff_isPowerOfTwo nonzero).mp power
    rw [Nat.clog_pow _ _ (by decide)]
  · next other =>
    rw [Nat.one_shiftLeft]
    congr 1
    apply le_antisymm
    · apply (Nat.lt_clog_iff_pow_lt (by decide)).mpr
      refine lt_of_le_of_ne (Nat.log2_self_le nonzero) ?_
      intro power
      exact other ((Nat.and_sub_one_eq_zero_iff_isPowerOfTwo nonzero).mpr ⟨_, power.symm⟩)
    · exact Nat.clog_le_of_le_pow Nat.lt_log2_self.le

section Store

variable {sha256d : Bytes → Hash} {nextPoT : Nat} {start : Nat → Option Hash}

theorem foldl_setParent {rounds : Nat} (few : rounds < nextPoT) :
    let merkles := (List.range rounds).foldl (setParent sha256d nextPoT) start
    (∀ index < nextPoT, merkles index = start index) ∧
      ∀ index < rounds, merkles (nextPoT + index) = MerkleRows.storeParent
        (hashMerkleBranches sha256d) (merkles (2 * index)) (merkles (2 * index + 1)) := by
  induction rounds with
  | zero => exact ⟨fun _ _ => rfl, by rintro _ ⟨⟩⟩
  | succ rounds ih =>
    obtain ⟨leaves, parents⟩ := ih (Nat.lt_of_succ_lt few)
    rw [List.range_succ, List.foldl_append, List.foldl_cons, List.foldl_nil]
    generalize (List.range rounds).foldl (setParent sha256d nextPoT) start = merkles at *
    have kept : ∀ index, index ≠ nextPoT + rounds →
        setParent sha256d nextPoT merkles rounds index = merkles index :=
      fun index other => Function.update_of_ne other _ _
    refine ⟨fun index inside => ?_, fun index below => ?_⟩
    · rw [kept index (by omega)]
      exact leaves index inside
    · rw [kept (2 * index) (by omega), kept (2 * index + 1) (by omega)]
      rcases Nat.lt_succ_iff_lt_or_eq.mp below with earlier | rfl
      · rw [kept _ (by omega)]
        exact parents index earlier
      · exact Function.update_self _ _ _

theorem getLast?_buildMerkleTreeStore (witness : Bool)
    (nonempty : transactions ≠ []) : (buildMerkleTreeStore sha256d transactions witness).getLast? =
      some (MerkleRows.root (hashMerkleBranches sha256d)
        (storeLeaves sha256d witness transactions)) := by
  have positive := List.length_pos_iff.mpr nonempty
  have size := nextPowerOfTwo_eq positive
  have some : 0 < nextPowerOfTwo transactions.length := size ▸ Nat.pow_pos (by decide)
  obtain ⟨leaves, parents⟩ := @foldl_setParent sha256d _
    (fun i => (storeLeaves sha256d witness transactions)[i]?)
    _ (Nat.sub_lt some Nat.one_pos)
  have height : MerkleRows.height (storeLeaves sha256d witness transactions) =
      Nat.clog 2 transactions.length := by
    rw [MerkleRows.height, storeLeaves, length_leafHashes]
  have filled : MerkleRows.Filled (hashMerkleBranches sha256d)
      (nextPowerOfTwo transactions.length) _ _ :=
    ⟨leaves, fun index inside => parents index (by omega)⟩
  rw [size, ← height] at filled
  rw [buildMerkleTreeStore, List.getLast?_map, List.getLast?_range, if_neg (by omega),
    Option.map_some, ← filled.root, height, ← size, Nat.mul_comm _ 2, Nat.sub_sub]

theorem leafHashes_eq_storeLeaves_iff (witness : Bool) (transactions : List BtcUtil.Tx) :
    leafHashes (txid sha256d) (wtxid sha256d) witness transactions =
        storeLeaves sha256d witness transactions ↔
      (witness = true → ∀ tx ∈ transactions.tail,
        wtxid sha256d tx = tx.msgTx.witnessHash sha256d) := by
  rw [storeLeaves]
  cases witness with
  | false => simp [leafHashes_base]
  | true =>
    cases transactions with
    | nil => simp [leafHashes]
    | cons coinbase others => simp [leafHashes_witness]

end Store

/-- The rolling computation never takes a root from an empty stack, and it answers when exactly
one is left.  This is the root of the whole tree if the transactions behind the coinbase have the
witness hashes of their messages, and only then unless two pairs of nodes have one hash. -/
theorem calcMerkleRoot_eq_last_iff (sha256d : Bytes → Hash) (witness : Bool)
    (transactions : List BtcUtil.Tx) (nonempty : transactions ≠ []) : ∃ root,
      calcMerkleRoot sha256d transactions witness = some root ∧
      ((witness = true → ∀ tx ∈ transactions.tail,
          (tx.witnessHash sha256d).1 = tx.msgTx.witnessHash sha256d) →
        (buildMerkleTreeStore sha256d transactions witness).getLast? = some (some root)) ∧
      (MerkleRows.Separates (hashMerkleBranches sha256d)
          (MerkleRows.rootPairs (hashMerkleBranches sha256d)
              (leafHashes (txid sha256d) (wtxid sha256d) witness transactions) ++
            MerkleRows.rootPairs (hashMerkleBranches sha256d)
              (storeLeaves sha256d witness transactions)) →
        (buildMerkleTreeStore sha256d transactions witness).getLast? = some (some root) →
        witness = true → ∀ tx ∈ transactions.tail,
          (tx.witnessHash sha256d).1 = tx.msgTx.witnessHash sha256d) := by
  have same := @leafHashes_eq_storeLeaves_iff sha256d witness transactions
  have length : (leafHashes (txid sha256d) (wtxid sha256d) witness transactions).length =
      (storeLeaves sha256d witness transactions).length := by
    rw [storeLeaves, length_leafHashes, length_leafHashes]
  obtain ⟨root, reached⟩ := @MerkleRows.climb_height _ (hashMerkleBranches sha256d)
    (leafHashes (txid sha256d) (wtxid sha256d) witness transactions)
    (by simpa [leafHashes] using nonempty)
  have rolled : MerkleRows.root (hashMerkleBranches sha256d)
      (leafHashes (txid sha256d) (wtxid sha256d) witness transactions) = some root := by
    rw [MerkleRows.root, reached]
    rfl
  refine ⟨root, (calcMerkleRoot_eq witness nonempty).trans rolled, ?_, ?_⟩
  · intro right
    rw [getLast?_buildMerkleTreeStore witness nonempty, ← same.mpr right, rolled]
  · intro separates stored
    rw [getLast?_buildMerkleTreeStore witness nonempty] at stored
    exact same.mp (MerkleRows.eq_of_root_eq_of_length length separates
      (rolled.trans (Option.some.inj stored).symm))

namespace TwoTransactions

open BtcUtil.TwoTransactions

def threeRoot : Hash :=
  .ofNat 32 0x44fb36563616da330344bfe427bd1be20934f2b8d56a9429b9b0454d80d089c4

/-- What SHA-256 (twice) gives for the transactions and for the nodes over them. -/
def nodeHash (message : Bytes) : Hash :=
  let second := sha256d (tx 1).serialize
  let branch : Hash := .ofNat 32 0xcf3cf7936d756bb33f2e57ed2e6f048f560a051cf88e8220e039957ca86d562b
  let last : Hash := .ofNat 32 0x79bec573bf0296709e990fa53aa4f489e661270a68878f323f50a57645107645
  if message = List.replicate 32 0 ++ second.bytes then branch
  else if message = List.replicate 32 0 ++ (sha256d (tx 0).serialize).bytes then
    .ofNat 32 0xcf5799cffb8806e53b090fe145ad7cccbc6d2eb2590d3bd4f330b7870325b868
  else if message = second.bytes ++ second.bytes then last
  else if message = branch.bytes ++ last.bytes then threeRoot
  else sha256d message

def wrapped : List BtcUtil.Tx :=
  [tx 0, tx 1, tx 1].map BtcUtil.newTx

/-- `Transactions` after `Tx(0)` and `Bytes`: the second gets the bytes of the first. -/
def misread : List (Option BtcUtil.Tx) :=
  (BtcUtil.blockTransactions (BtcUtil.blockBytes
    (BtcUtil.blockTx 0 (BtcUtil.newBlock block)).2).2).1

end TwoTransactions

open TwoTransactions in
theorem calcMerkleRoot_eq_last_three : calcMerkleRoot nodeHash wrapped true = some threeRoot ∧
    (buildMerkleTreeStore nodeHash wrapped true).getLast? = some (some threeRoot) := by
  obtain ⟨root, rolled, stored, _⟩ := calcMerkleRoot_eq_last_iff nodeHash true wrapped (by decide)
  have computed : calcMerkleRoot nodeHash wrapped true = some threeRoot := by
    decide
  rw [← Option.some.inj (rolled.symm.trans computed)]
  exact ⟨rolled, stored fun _ => by decide⟩

open TwoTransactions in
theorem calcMerkleRoot_ne_last_misread :
    ∃ transactions : List BtcUtil.Tx, misread = transactions.map some ∧
      ¬ ∃ root, calcMerkleRoot nodeHash transactions true = some root ∧
        (buildMerkleTreeStore nodeHash transactions true).getLast? = some (some root) := by
  have differ : (calcMerkleRoot nodeHash (misread.filterMap id) true).map some ≠
      (buildMerkleTreeStore nodeHash (misread.filterMap id) true).getLast? := by
    decide +kernel
  refine ⟨misread.filterMap id, by decide +kernel, ?_⟩
  rintro ⟨root, rolled, stored⟩
  exact differ (by rw [rolled, stored, Option.map_some])

end ModelOS.BlockChain
