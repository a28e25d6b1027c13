import ModelOS.BtcUtil.Tx
import ModelOS.Data.MerkleRows

namespace ModelOS.BlockChain

open Data Wire

/-! The Merkle root with one root for every complete subtree. -/

def hashMerkleBranches (sha256d : Bytes → Hash) (left right : Hash) : Hash :=
  sha256d (left.bytes ++ right.bytes)

/-- The roots are kept with the one that was appended last in front. -/
structure RollingMerkleTreeStore where
  roots : List Hash
  numLeaves : Nat
deriving DecidableEq

namespace RollingMerkleTreeStore

def empty : RollingMerkleTreeStore := ⟨[], 0⟩

section Compute

variable (sha256d : Bytes → Hash)

/-- The loop of `add`.  Every bit that is set takes the last root away; nothing
where there is none. -/
def absorb : (numLeaves : Nat) → (roots : List Hash) → (newRoot : Hash) → Option (List Hash)
  | numLeaves, [], newRoot => if numLeaves % 2 = 1 then none else some [newRoot]
  | numLeaves, root :: rest, newRoot =>
    if numLeaves % 2 = 1 then
      absorb (numLeaves / 2) rest (hashMerkleBranches sha256d root newRoot)
    else some (newRoot :: root :: rest)

def add (store : RollingMerkleTreeStore) (hash : Hash) : Option RollingMerkleTreeStore :=
  (absorb sha256d store.numLeaves store.roots hash).map (⟨·, store.numLeaves + 1⟩)

/-- Shift right until the number is odd. -/
def shiftToOdd : (fuel : Nat) → (numLeaves : Nat) → Nat
  | 0, numLeaves => numLeaves
  | fuel + 1, numLeaves =>
    if numLeaves % 2 = 0 then shiftToOdd fuel (numLeaves / 2) else numLeaves

/-- The upper rows: while there are several roots, the last one is added again
in its own row. -/
def closeRows : (fuel : Nat) → RollingMerkleTreeStore → Option Hash
  | 0, _ => none
  | _ + 1, ⟨[], _⟩ => none
  | _ + 1, ⟨[root], _⟩ => some root
  | fuel + 1, ⟨last :: next :: rest, numLeaves⟩ => do
      let store ← add sha256d
        ⟨last :: next :: rest, shiftToOdd numLeaves numLeaves⟩ last
      closeRows fuel store

/-- The leaves of a tree over transactions that have these identifiers. -/
def leafHashes (txid wtxid : α → Hash) (witness : Bool) (transactions : List α) : List Hash :=
  transactions.zipIdx.map fun (tx, index) =>
    if witness then
      if index = 0 then FixedBytes.zero 32 else wtxid tx
    else txid tx

def txid (tx : BtcUtil.Tx) : Hash :=
  (tx.hash sha256d).1

def wtxid (tx : BtcUtil.Tx) : Hash :=
  (tx.witnessHash sha256d).1

/-- Nothing where the source would index an empty slice.  A transaction that is asked for its
hash a second time remembers it. -/
def calcMerkleRoot (store : RollingMerkleTreeStore) (adds : List BtcUtil.Tx)
    (witness : Bool) : Option Hash := do
  let store ← (leafHashes (txid sha256d) (wtxid sha256d) witness adds).foldlM (add sha256d) store
  if store.numLeaves = 1 then store.roots.getLast?
  else
    let store ← (match adds.getLast? with
      | some last =>
        if adds.length % 2 ≠ 0 then
          add sha256d store (if witness then wtxid sha256d last else txid sha256d last)
        else some store
      | none => some store)
    closeRows sha256d store.numLeaves store

end Compute

end RollingMerkleTreeStore

def calcMerkleRoot (sha256d : Bytes → Hash) (transactions : List BtcUtil.Tx)
    (witness : Bool) : Option Hash :=
  RollingMerkleTreeStore.empty.calcMerkleRoot sha256d transactions witness

namespace RollingMerkleTreeStore

variable {sha256d : Bytes → Hash}

structure Holds (sha256d : Bytes → Hash) (store : RollingMerkleTreeStore)
    (row : List Hash) : Prop where
  numLeaves : store.numLeaves = row.length
  peaks : MerkleRows.Peaks (hashMerkleBranches sha256d) row store.roots

theorem holds_empty : Holds sha256d empty [] :=
  ⟨rfl, .nil⟩

variable {row : List Hash} {store : RollingMerkleTreeStore}

theorem absorb_peaks {roots : List Hash}
    (peaks : MerkleRows.Peaks (hashMerkleBranches sha256d) row roots) (newRoot : Hash) :
    ∃ after, absorb sha256d row.length roots newRoot = some after ∧
      MerkleRows.Peaks (hashMerkleBranches sha256d) (row ++ [newRoot]) after := by
  induction peaks generalizing newRoot with
  | nil => exact ⟨[newRoot], rfl, @MerkleRows.Peaks.odd _ _ [] [] _ rfl .nil⟩
  | @even row roots even nonempty above ih =>
    refine ⟨newRoot :: roots, ?_, .odd even above⟩
    cases roots with
    | nil => exact absurd (above.eq_nil rfl) (MerkleRows.rowAbove_ne_nil nonempty)
    | cons root rest => rw [absorb, if_neg (by omega)]
  | @odd row roots last even above ih =>
    obtain ⟨after, absorbed, peaks⟩ := ih (hashMerkleBranches sha256d last newRoot)
    refine ⟨after, ?_, ?_⟩
    · have half : (row ++ [last]).length / 2 =
          (MerkleRows.rowAbove (hashMerkleBranches sha256d) row).length := by
        rw [MerkleRows.length_rowAbove, List.length_append, List.length_singleton]
      rw [absorb, if_pos (by simp; omega), half]
      exact absorbed
    · apply MerkleRows.Peaks.even
      · simp only [List.length_append, List.length_singleton]
        omega
      · simp
      · rw [List.append_assoc, MerkleRows.rowAbove_append_of_even even]
        exact peaks

theorem Holds.add (holds : Holds sha256d store row) (hash : Hash) :
    ∃ after, store.add sha256d hash = some after ∧ Holds sha256d after (row ++ [hash]) := by
  obtain ⟨roots, absorbed, peaks⟩ := absorb_peaks holds.peaks hash
  refine ⟨⟨roots, store.numLeaves + 1⟩, ?_, ?_, peaks⟩
  · rw [RollingMerkleTreeStore.add, holds.numLeaves, absorbed]
    rfl
  · rw [holds.numLeaves, List.length_append, List.length_singleton]

theorem Holds.addAll (holds : Holds sha256d store row) (hashes : List Hash) :
    ∃ after, hashes.foldlM (RollingMerkleTreeStore.add sha256d) store =
        some after ∧ Holds sha256d after (row ++ hashes) := by
  induction hashes generalizing store row with
  | nil =>
    rw [List.append_nil]
    exact ⟨store, rfl, holds⟩
  | cons hash rest ih =>
    obtain ⟨middle, added, held⟩ := holds.add hash
    obtain ⟨after, others, result⟩ := ih held
    refine ⟨after, ?_, ?_⟩
    · rw [List.foldlM_cons, added]
      exact others
    · rwa [List.append_assoc] at result

theorem shiftToOdd_eq (odd : size % 2 = 1)
    (enough : levels ≤ fuel) : shiftToOdd fuel (2 ^ levels * size) = size := by
  induction levels generalizing fuel with
  | zero =>
    rw [Nat.pow_zero, Nat.one_mul]
    cases fuel with
    | zero => rfl
    | succ fuel => rw [shiftToOdd, if_neg (by omega)]
  | succ levels ih =>
    obtain ⟨fuel, rfl⟩ : ∃ less, fuel = less + 1 := ⟨fuel - 1, by omega⟩
    have twice : 2 ^ (levels + 1) * size = 2 * (2 ^ levels * size) := by
      rw [Nat.pow_succ']
      exact Nat.mul_assoc _ _ _
    rw [shiftToOdd, twice, if_pos (Nat.mul_mod_right 2 _),
      Nat.mul_div_cancel_left _ (by decide), ih (by omega)]

theorem Holds.closeRow {numLeaves : Nat}
    (holds : Holds sha256d ⟨last :: next :: rest, numLeaves⟩ row) (even : row.length % 2 = 0) :
    ∃ after above, RollingMerkleTreeStore.add sha256d
          ⟨last :: next :: rest, shiftToOdd numLeaves numLeaves⟩ last = some after ∧
        Holds sha256d after above ∧ above.length % 2 = 0 ∧ above ≠ [] ∧ above.length < row.length ∧
        MerkleRows.root (hashMerkleBranches sha256d) above =
          MerkleRows.root (hashMerkleBranches sha256d) row := by
  obtain ⟨front, levels, evenFront, length, below, same⟩ := holds.peaks.lowest
  have someFront : front ≠ [] := by
    intro none
    rw [none] at below
    exact below.nonempty rfl
  have positive := List.length_pos_iff.mpr someFront
  have shifted : shiftToOdd numLeaves numLeaves = front.length + 1 := by
    have count : numLeaves = row.length := holds.numLeaves
    have deep : levels ≤ row.length := by
      rw [length]
      exact Nat.lt_two_pow_self.le.trans (Nat.le_mul_of_pos_right _ (Nat.succ_pos _))
    rw [count]
    nth_rewrite 2 [length]
    exact shiftToOdd_eq (by omega) deep
  have lowered : Holds sha256d ⟨last :: next :: rest, front.length + 1⟩
      (front ++ [last]) := ⟨by simp, .odd evenFront below⟩
  obtain ⟨after, added, held⟩ := lowered.add last
  refine ⟨after, front ++ [last, last], ?_, ?_, ?_, by simp, ?_, ?_⟩
  · rw [shifted, added]
  · rwa [List.append_assoc] at held
  · simpa using evenFront
  · cases levels with
    | zero => omega
    | succ levels =>
      have twice : 2 * (front.length + 1) ≤ row.length := by
        rw [length, Nat.pow_succ', Nat.mul_assoc]
        exact Nat.mul_le_mul_left _ (Nat.le_mul_of_pos_left _ (Nat.pow_pos (by decide)))
      simp only [List.length_append, List.length_cons, List.length_nil]
      omega
  · rw [MerkleRows.root_repeat_last evenFront someFront, same]

theorem closeRows_eq (holds : Holds sha256d store row) (even : row.length % 2 = 0)
    (nonempty : row ≠ []) (enough : row.length ≤ fuel) : closeRows sha256d fuel store =
      MerkleRows.root (hashMerkleBranches sha256d) row := by
  induction fuel generalizing store row with
  | zero =>
    have empty := List.length_eq_zero_iff.mp (Nat.le_zero.mp enough)
    exact absurd empty nonempty
  | succ fuel ih =>
    match store, holds with
    | ⟨[], _⟩, holds => exact absurd (holds.peaks.eq_nil rfl) nonempty
    | ⟨[root], _⟩, holds => exact holds.peaks.root_of_single.symm
    | ⟨last :: next :: rest, numLeaves⟩, holds =>
      obtain ⟨after, above, added, held, evenAbove, someAbove, shorter, same⟩ := holds.closeRow even
      rw [closeRows, added, ← same]
      exact ih held evenAbove someAbove (by omega)

section Leaves

variable {txid wtxid : α → Hash}

@[simp] theorem length_leafHashes (witness : Bool) (transactions : List α) :
    (leafHashes txid wtxid witness transactions).length = transactions.length := by
  simp [leafHashes]

theorem leafHashes_base (transactions : List α) :
    leafHashes txid wtxid false transactions = transactions.map txid := by
  rw [leafHashes]
  conv_rhs => rw [← List.zipIdx_map_fst 0 transactions, List.map_map]
  rfl

theorem leafHashes_witness (coinbase : α) (others : List α) :
    leafHashes txid wtxid true (coinbase :: others) =
      FixedBytes.zero 32 :: others.map wtxid := by
  rw [leafHashes, List.zipIdx_cons, List.map_cons]
  congr 1
  conv_rhs => rw [← List.zipIdx_map_fst 1 others, List.map_map]
  apply List.map_congr_left
  rintro ⟨tx, index⟩ member
  have later : index ≠ 0 := by
    have bound := List.le_snd_of_mem_zipIdx member
    omega
  simp [later]

theorem leafHashes_concat (witness : Bool) (last : α) (nonempty : front ≠ []) :
    leafHashes txid wtxid witness (front ++ [last]) =
      leafHashes txid wtxid witness front ++ [if witness then wtxid last else txid last] := by
  obtain ⟨first, others, rfl⟩ := List.exists_cons_of_ne_nil nonempty
  cases witness with
  | false => simp [leafHashes_base]
  | true =>
    rw [List.cons_append, leafHashes_witness, leafHashes_witness, List.map_append]
    rfl

end Leaves

theorem calcMerkleRoot_eq {transactions : List BtcUtil.Tx} (witness : Bool)
    (nonempty : transactions ≠ []) : BlockChain.calcMerkleRoot sha256d transactions witness =
      MerkleRows.root (hashMerkleBranches sha256d)
        (leafHashes (txid sha256d) (wtxid sha256d) witness transactions) := by
  obtain ⟨front, last, rfl⟩ := (List.eq_nil_or_concat' transactions).resolve_left nonempty
  rw [BlockChain.calcMerkleRoot, calcMerkleRoot]
  cases front with
  | nil => exact (MerkleRows.root_singleton _).symm
  | cons tx rest =>
    have someFront : tx :: rest ≠ [] := List.cons_ne_nil _ _
    obtain ⟨store, added, holds⟩ := (@holds_empty sha256d).addAll
      (leafHashes (txid sha256d) (wtxid sha256d) witness (tx :: rest ++ [last]))
    rw [List.nil_append] at holds
    have several : store.numLeaves = rest.length + 2 := by
      rw [holds.numLeaves, length_leafHashes]
      simp
    rw [added, Option.bind_eq_bind, Option.bind_some, if_neg (by omega), List.getLast?_concat]
    dsimp only
    by_cases odd : (tx :: rest ++ [last]).length % 2 ≠ 0
    · rw [if_pos odd]
      rw [leafHashes_concat witness last someFront] at holds ⊢
      generalize (if witness then wtxid sha256d last
        else txid sha256d last) = lastHash at holds ⊢
      obtain ⟨after, again, held⟩ := holds.add lastHash
      rw [List.append_assoc, List.singleton_append] at held
      have evenFront :
          (leafHashes (txid sha256d) (wtxid sha256d) witness (tx :: rest)).length % 2 = 0 := by
        rw [List.length_append, List.length_singleton] at odd
        rw [length_leafHashes]
        omega
      have padded : (leafHashes (txid sha256d) (wtxid sha256d) witness (tx :: rest) ++
          [lastHash, lastHash]).length % 2 = 0 := by
        rw [List.length_append]
        exact (Nat.add_mod_right _ 2).trans evenFront
      rw [again, Option.bind_some, closeRows_eq held padded (by simp) held.numLeaves.ge]
      exact MerkleRows.root_repeat_last evenFront (by simp [leafHashes]) _
    · rw [if_neg odd, Option.bind_some]
      rw [Decidable.not_not] at odd
      exact closeRows_eq holds (by rwa [length_leafHashes]) (by simp [leafHashes])
        holds.numLeaves.ge

end RollingMerkleTreeStore

open RollingMerkleTreeStore

section Messages

variable (sha256d : Bytes → Hash)

/-- The leaves that the messages themselves give. -/
abbrev messageLeaves (witness : Bool) (transactions : List MsgTx) : List Hash :=
  leafHashes (MsgTx.txHash sha256d) (MsgTx.witnessHash sha256d) witness transactions

/-- A transaction that was just wrapped has the identifiers of its message. -/
theorem calcMerkleRoot_newTx (witness : Bool) (nonempty : transactions ≠ []) :
    calcMerkleRoot sha256d (transactions.map BtcUtil.newTx) witness =
      MerkleRows.root (hashMerkleBranches sha256d)
        (messageLeaves sha256d witness transactions) := by
  obtain ⟨first, others, rfl⟩ := List.exists_cons_of_ne_nil nonempty
  rw [calcMerkleRoot_eq witness (by simp)]
  congr 1
  cases witness with
  | false => rw [leafHashes_base, messageLeaves, leafHashes_base, List.map_map]; rfl
  | true =>
    rw [List.map_cons, leafHashes_witness, messageLeaves, leafHashes_witness, List.map_map]
    rfl

end Messages

end ModelOS.BlockChain
