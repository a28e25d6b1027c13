import ModelOS.Data.MerkleBranch
import ModelOS.Wire.BlockHeader

namespace ModelOS.Wire

open Data

/-! A parent (Pearl) header with its proof of work, and the coinbase transaction and
branch that tie the child state to that header. -/

def pearlHeaderSize : Nat := 108

def pearlHdrMerkleRootOffset : Nat := 36

def auxPowMask : Int32 := 0x1101

/-- The marker spells `MDL*`. -/
def auxPowMagic : Bytes := [0x4d, 0x44, 0x4c, 0x2a]

def maxCoinbaseBranchDepth : Nat := 32

structure AuxPowMerkleNode where
  hash : Hash
  isLeft : Bool
deriving DecidableEq

structure AuxPowData where
  pearlHeader : FixedBytes pearlHeaderSize
  modelOSStateHash : Hash
  pearlHeight : Int32
  pearlPublicData : FixedBytes publicDataSize
  pearlProofData : Bytes
  pearlCoinbaseTx : Bytes
  coinbaseBranch : List AuxPowMerkleNode
deriving DecidableEq

namespace AuxPowData

def pearlMerkleRoot (auxPow : AuxPowData) : Hash :=
  .copy 32 (slice auxPow.pearlHeader.bytes pearlHdrMerkleRootOffset 32)

def serialise (auxPow : AuxPowData) : Bytes :=
  auxPow.pearlHeader.bytes ++ auxPow.modelOSStateHash.bytes ++
    leBytes 4 auxPow.pearlHeight.toUInt32.toNat ++ auxPow.pearlPublicData.bytes ++
    leBytes 4 auxPow.pearlProofData.length ++ auxPow.pearlProofData ++
    leBytes 4 auxPow.pearlCoinbaseTx.length ++ auxPow.pearlCoinbaseTx ++
    leBytes 1 auxPow.coinbaseBranch.length ++ auxPow.coinbaseBranch.flatMap fun node =>
      node.hash.bytes ++ [if node.isLeft then 1 else 0]

def branch (auxPow : AuxPowData) : List (Hash × Bool) :=
  auxPow.coinbaseBranch.map fun node => (node.hash, node.isLeft)

end AuxPowData

def auxPowProofCommitment (blake3 : Bytes → Hash) (auxPow : AuxPowData) (network : UInt32) : Hash :=
  blake3 (leBytes 4 network.toNat ++ leBytes 4 0 ++ auxPow.serialise)

def combined (left right : Hash) : Bytes :=
  left.bytes ++ right.bytes

def verifyCoinbaseMerkleRoot (sha256d : Bytes → Hash) (auxPow : AuxPowData)
    (coinbaseTxid : Hash) : Hash :=
  auxPow.coinbaseBranch.foldl (fun current node =>
    if node.isLeft then sha256d (combined node.hash current)
    else sha256d (combined current node.hash)) coinbaseTxid

def isAuxPowBlock (header : BlockHeader) : Bool :=
  header.version &&& auxPowMask = auxPowMask

/-- The scan from one offset on: `magicCount` markers were seen before it and
`found` is the offset of the one that carried the state hash. -/
def scanCommitment (sigmaModelos : Hash) :
    (rest : Bytes) → (offset magicCount : Nat) → (found : Option Nat) → Option Nat
  | [], _, _, found => found
  | byte :: rest, offset, magicCount, found =>
    if (byte :: rest).take 4 = auxPowMagic then
      if magicCount + 1 > 1 then none
      else if 36 ≤ (byte :: rest).length ∧ slice (byte :: rest) 4 32 = sigmaModelos.bytes then
        scanCommitment sigmaModelos rest (offset + 1) (magicCount + 1) (some offset)
      else scanCommitment sigmaModelos rest (offset + 1) (magicCount + 1) found
    else scanCommitment sigmaModelos rest (offset + 1) magicCount found

/-- The offset of the commitment, or nothing where the source returns -1. -/
def containsModelosCommitment (scriptSig : Bytes) (sigmaModelos : Hash) : Option Nat :=
  scanCommitment sigmaModelos scriptSig 0 0 none

theorem combined_injective
    (equality : combined left right = combined left' right') : left = left' ∧ right = right' := by
  obtain ⟨lefts, rights⟩ := List.append_inj equality (by simp)
  exact ⟨FixedBytes.ext lefts, FixedBytes.ext rights⟩

theorem verifyCoinbaseMerkleRoot_eq_climb (sha256d : Bytes → Hash)
    (auxPow : AuxPowData) (coinbaseTxid : Hash) :
    verifyCoinbaseMerkleRoot sha256d auxPow coinbaseTxid =
      MerkleBranch.climb sha256d combined coinbaseTxid auxPow.branch := by
  unfold verifyCoinbaseMerkleRoot AuxPowData.branch
  generalize auxPow.coinbaseBranch = nodes
  induction nodes generalizing coinbaseTxid with
  | nil => rfl
  | cons node rest ih =>
    simp only [List.foldl_cons, List.map_cons, MerkleBranch.climb, MerkleBranch.parentMessage]
    rw [ih]
    cases node.isLeft <;> rfl

/-- Past the first marker the scan can only keep or drop what it has. -/
private theorem scanCommitment_after_magic {sigmaModelos : Hash}
    {rest : Bytes} {offset position : Nat} {found : Option Nat}
    (result : scanCommitment sigmaModelos rest offset 1 found = some position) :
    found = some position := by
  induction rest generalizing offset with
  | nil => exact result
  | cons byte rest ih =>
    simp only [scanCommitment] at result
    split at result
    · simp at result
    · exact ih result

private theorem scanCommitment_unique {first second : Hash}
    {rest : Bytes} {offset firstPosition secondPosition : Nat}
    (firstResult : scanCommitment first rest offset 0 none = some firstPosition)
    (secondResult : scanCommitment second rest offset 0 none = some secondPosition) :
    first = second := by
  induction rest generalizing offset with
  | nil => simp [scanCommitment] at firstResult
  | cons byte rest ih =>
    simp only [scanCommitment] at firstResult secondResult
    split at firstResult
    · -- the only marker: both hashes are the 32 bytes that follow it
      rename_i isMagic
      simp only [isMagic, Nat.zero_add, gt_iff_lt, lt_self_iff_false,
        if_false, if_true] at firstResult secondResult
      split at firstResult
      · rename_i firstCommitted
        split at secondResult
        · rename_i secondCommitted
          apply FixedBytes.ext
          rw [← firstCommitted.2, ← secondCommitted.2]
        · cases scanCommitment_after_magic secondResult
      · cases scanCommitment_after_magic firstResult
    · rename_i notMagic
      rw [if_neg notMagic] at secondResult
      exact ih firstResult secondResult

theorem containsModelosCommitment_unique
    (firstFound : (containsModelosCommitment scriptSig first).isSome)
    (secondFound : (containsModelosCommitment scriptSig second).isSome) : first = second := by
  obtain ⟨firstPosition, firstResult⟩ := Option.isSome_iff_exists.mp firstFound
  obtain ⟨secondPosition, secondResult⟩ := Option.isSome_iff_exists.mp secondFound
  exact scanCommitment_unique firstResult secondResult

end ModelOS.Wire
