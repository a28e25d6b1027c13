import ModelOS.Data.Bytes
import ModelOS.Data.HashTree

namespace ModelOS.PearlBlake3

open Data

/-! Everything that combines chaining values is generic in their type, so that the same
code runs on digests and on trees of what was hashed. -/

def chunkLen : Nat := 1024

abbrev Digest := FixedBytes 32

abbrev Chunk := FixedBytes chunkLen

structure ChunkInput where
  offset : UInt64
  isRoot : Bool
  data : Bytes
deriving DecidableEq

inductive MergeMode
  | nonRoot
  | root
deriving DecidableEq

abbrev Compression (Cv : Type) := HashInput ChunkInput MergeMode Cv

structure Blake3Hasher (Cv : Type) where
  hash : Bytes → Cv
  chunkCv : (data : Bytes) → (chunkIndex : UInt64) → Cv
  parentCv : (left right : Cv) → Cv
  rootCv : (left right : Cv) → Cv

/-- `hash` is only called on data of at most one chunk. -/
def Blake3Hasher.withKey {Cv : Type} (blake3 : (key : Cv) → Compression Cv → Cv)
    (key : Cv) : Blake3Hasher Cv where
  hash := fun data => blake3 key (.leaf ⟨0, true, data⟩)
  chunkCv := fun data chunkIndex =>
    blake3 key (.leaf ⟨chunkIndex * UInt64.ofNat chunkLen, false, data⟩)
  parentCv := fun left right => blake3 key (.node .nonRoot left right)
  rootCv := fun left right => blake3 key (.node .root left right)

variable {Cv : Type} (hasher : Blake3Hasher Cv)

def hashChunks (data : Bytes) : List Cv :=
  (List.range ((data.length + chunkLen - 1) / chunkLen)).map fun index =>
    hasher.chunkCv (slice data (index * chunkLen) chunkLen) (UInt64.ofNat index)

def combineLayer : List Cv → List Cv
  | left :: right :: rest => hasher.parentCv left right :: combineLayer rest
  | [single] => [single]
  | [] => []

theorem length_combineLayer (layer : List Cv) :
    (combineLayer hasher layer).length = (layer.length + 1) / 2 := by
  fun_induction combineLayer hasher layer with
  | case1 left right rest ih =>
    simp only [List.length_cons, ih]
    omega
  | case2 single => simp
  | case3 => simp

structure MerkleTree (Cv : Type) where
  layers : List (List Cv)
  data : Bytes

namespace MerkleTree

def layersFrom (layer : List Cv) : List (List Cv) :=
  if 2 < layer.length then layer :: layersFrom (combineLayer hasher layer)
  else
    match layer with
    | [left, right] => [layer, [hasher.rootCv left right]]
    | _ => [layer]
termination_by layer.length
decreasing_by
  rw [length_combineLayer]
  omega

def new (data : Bytes) : MerkleTree Cv :=
  if data = [] then { layers := [[]], data := [] }
  else if data.length ≤ chunkLen then { layers := [[hasher.hash data]], data }
  else { layers := layersFrom hasher (hashChunks hasher data), data }

/-- Nothing for the tree of no data, where the source indexes an empty layer. -/
def root (tree : MerkleTree Cv) : Option Cv :=
  (tree.layers.getLastD []).head?

end MerkleTree

structure MerkleProof (Cv : Type) where
  leafData : List Chunk
  leafIndices : List UInt64
  totalLeaves : UInt64
  root : Cv
  siblings : List Cv

inductive Panic
  | noEntryFoundForKey
  | capacityOverflow
deriving DecidableEq

abbrev BTreeMap (Cv : Type) := Std.ExtTreeMap Nat Cv

def nextSibling : List Cv → Option (Cv × List Cv)
  | [] => none
  | sibling :: siblings => some (sibling, siblings)

/-- What is inserted above entry `index` of a level, if anything. -/
def combineEntry (current : BTreeMap Cv) (levelLen index : Nat) (cv : Cv)
    (siblings : List Cv) : Option (Option Cv × List Cv) :=
  if index % 2 = 0 then
    match current[index + 1]? with
    | some right => some (some (hasher.parentCv cv right), siblings)
    | none =>
      if index + 1 < levelLen then do
        let (right, siblings) ← nextSibling siblings
        return (some (hasher.parentCv cv right), siblings)
      else some (some cv, siblings)
  else if index - 1 ∈ current then some (none, siblings)
  else do
    let (left, siblings) ← nextSibling siblings
    return (some (hasher.parentCv left cv), siblings)

def insertAbove (next : BTreeMap Cv) (index : Nat) : Option Cv → BTreeMap Cv
  | some value => next.insert (index / 2) value
  | none => next

def combineEntries (current : BTreeMap Cv) (levelLen : Nat) :
    List (Nat × Cv) → (next : BTreeMap Cv) → (siblings : List Cv) → Option (BTreeMap Cv × List Cv)
  | [], next, siblings => some (next, siblings)
  | (index, cv) :: entries, next, siblings => do
      let (value, siblings) ←
        combineEntry hasher current levelLen index cv siblings
      combineEntries current levelLen entries (insertAbove next index value) siblings

def climb (current : BTreeMap Cv) (levelLen : Nat) (siblings : List Cv) :
    Option (BTreeMap Cv × List Cv) :=
  if 2 < levelLen then do
    let (next, siblings) ←
      combineEntries hasher current levelLen current.toList ∅ siblings
    climb next ((levelLen + 1) / 2) siblings
  else some (current, siblings)
termination_by levelLen

def takeNode (current : BTreeMap Cv) (index : Nat) (siblings : List Cv) : Option (Cv × List Cv) :=
  match current[index]? with
  | some value => some (value, siblings)
  | none => nextSibling siblings

def mergeRoot (current : BTreeMap Cv) (siblings : List Cv) : Option Cv := do
  let (left, siblings) ← takeNode current 0 siblings
  let (right, siblings) ← takeNode current 1 siblings
  if siblings.isEmpty then some (hasher.rootCv left right) else none

namespace MerkleProof

variable (proof : MerkleProof Cv)

def leafHashes : List Cv :=
  List.zipWith (fun index data => hasher.chunkCv data.bytes index) proof.leafIndices proof.leafData

/-- Of several leaves with one index the last one stays. -/
def leafMap : BTreeMap Cv :=
  .ofList ((proof.leafIndices.map UInt64.toNat).zip (proof.leafHashes hasher))

def computeRoot : Except Panic (Option Cv) :=
  if proof.leafIndices = [] then .ok none
  else if proof.totalLeaves = 1 then
    if proof.siblings.isEmpty then
      match (proof.leafMap hasher)[0]? with
      | some cv => .ok (some cv)
      | none => .error .noEntryFoundForKey
    else .ok none
  else
    .ok do
      let (current, siblings) ← climb hasher (proof.leafMap hasher)
        proof.totalLeaves.toNat proof.siblings
      mergeRoot hasher current siblings

def verify [DecidableEq Cv] : Except Panic Bool := do
  let computed ← proof.computeRoot hasher
  return computed = some proof.root

end MerkleProof

def overwrite (target : Bytes) (offset : Nat) (source : Bytes) : Bytes :=
  target.take offset ++ source ++ target.drop (offset + source.length)

def copyLeaf (globalStart globalEnd : UInt64) (progress : Bytes × Nat)
    (leaf : UInt64 × Chunk) : Bytes × Nat :=
  let leafStart := leaf.1 * UInt64.ofNat chunkLen
  let leafEnd := leafStart + UInt64.ofNat chunkLen
  if leafStart < globalEnd ∧ globalStart < leafEnd then
    let copyStart := max globalStart.toNat leafStart.toNat
    let copyEnd := min globalEnd.toNat leafEnd.toNat
    let len := copyEnd - copyStart
    (overwrite progress.1 (copyStart - globalStart.toNat)
      (slice leaf.2.bytes (copyStart - leafStart.toNat) len), progress.2 + len)
  else progress

namespace MerkleProof

def leaves (proof : MerkleProof Cv) : List (UInt64 × Chunk) :=
  proof.leafIndices.zip proof.leafData

def copyLeaves (proof : MerkleProof Cv) (globalStart length : UInt64) : Bytes × Nat :=
  proof.leaves.foldl (copyLeaf globalStart (globalStart + length))
    (List.replicate length.toNat 0, 0)

def extractBytes (proof : MerkleProof Cv) (globalStart length : UInt64) :
    Except Panic (Except String Bytes) :=
  if 2 ^ 63 ≤ length.toNat then .error .capacityOverflow
  else if (proof.copyLeaves globalStart length).2 = length.toNat then
    .ok (.ok (proof.copyLeaves globalStart length).1)
  else .ok (.error "Not all required bytes covered by leaves")

end MerkleProof

end ModelOS.PearlBlake3
