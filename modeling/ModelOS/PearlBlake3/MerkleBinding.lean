import ModelOS.PearlBlake3.MerkleRuns

namespace ModelOS.PearlBlake3

open Data

/-! Every entry of a level is part of the entry above it. -/

section Levels

variable {Cv : Type} {hasher : Blake3Hasher Cv}

/-- How the value above one of parity `bit` is made of it. -/
inductive Blake3Hasher.Above (hasher : Blake3Hasher Cv) (value : Cv) : (bit : Nat) → Cv → Prop
  | promoted : Above hasher value 0 value
  | left (right : Cv) : Above hasher value 0 (hasher.parentCv value right)
  | right (left : Cv) : Above hasher value 1 (hasher.parentCv left value)

/-- The entries that insert something: all but the right one of a pair. -/
def Inserts (current : BTreeMap Cv) (index : Nat) : Prop :=
  index % 2 = 0 ∨ index - 1 ∉ current

variable {current : BTreeMap Cv} {levelLen index : Nat} {siblings rest : List Cv}

/-- Of two present neighbours only the left one inserts. -/
theorem Inserts.eq_of_half (inserts : Inserts current index)
    (otherInserts : Inserts current other) (present : index ∈ current)
    (otherPresent : other ∈ current) (half : other / 2 = index / 2) : other = index := by
  wlog below : index ≤ other generalizing index other
  · exact (this otherInserts inserts otherPresent present half.symm (by omega)).symm
  rcases otherInserts with even | unpaired
  · omega
  · by_contra different
    have neighbour : other - 1 = index := by omega
    exact unpaired (neighbour ▸ present)

theorem combineEntry_inserts
    (entry : combineEntry hasher current levelLen index cv siblings = some (value, rest))
    (inserts : Inserts current index) :
    ∃ above, value = some above ∧ hasher.Above cv (index % 2) above ∧
      (index % 2 = 0 → ∀ right, current[index + 1]? = some right →
        above = hasher.parentCv cv right) := by
  unfold combineEntry at entry
  by_cases even : index % 2 = 0
  · rw [if_pos even] at entry
    rw [even]
    cases neighbour : current[index + 1]? with
    | some right =>
      rw [neighbour] at entry
      cases entry
      refine ⟨_, rfl, .left right, ?_⟩
      rintro _ other ⟨⟩
      rfl
    | none =>
      rw [neighbour] at entry
      by_cases inside : index + 1 < levelLen
      · simp only [if_pos inside] at entry
        cases siblings with
        | nil => cases entry
        | cons sibling siblings =>
          cases entry
          exact ⟨_, rfl, .left sibling, by rintro _ other ⟨⟩⟩
      · simp only [if_neg inside] at entry
        cases entry
        exact ⟨_, rfl, .promoted, by rintro _ other ⟨⟩⟩
  · have odd : index % 2 = 1 := by omega
    have unpaired : index - 1 ∉ current := inserts.resolve_left even
    rw [if_neg even, if_neg unpaired] at entry
    cases siblings with
    | nil => cases entry
    | cons sibling siblings =>
      cases entry
      refine ⟨_, rfl, ?_, fun isEven => absurd isEven even⟩
      rw [odd]
      exact .right sibling

theorem combineEntry_skips
    (entry : combineEntry hasher current levelLen index cv siblings = some (value, rest))
    (skips : ¬ Inserts current index) : value = none := by
  unfold Inserts at skips
  push Not at skips
  unfold combineEntry at entry
  rw [if_neg skips.1, if_pos skips.2] at entry
  cases entry
  rfl

theorem combineEntries_frame
    (combined : combineEntries hasher current levelLen entries next siblings = some (after, rest))
    (skipped : ∀ entry ∈ entries, entry.1 / 2 = index → ¬ Inserts current entry.1) :
    after[index]? = next[index]? := by
  induction entries generalizing next siblings with
  | nil =>
    cases combined
    rfl
  | cons entry entries ih =>
    obtain ⟨position, cv⟩ := entry
    rw [combineEntries] at combined
    simp only [Option.bind_eq_bind, Option.bind_eq_some_iff, Prod.exists]
      at combined
    obtain ⟨value, siblings', step, tail⟩ := combined
    rw [ih tail fun other inside =>
      skipped other (.tail _ inside)]
    cases value with
    | none => rfl
    | some above =>
      rw [insertAbove, Std.ExtTreeMap.getElem?_insert]
      by_cases here : position / 2 = index
      · have none := combineEntry_skips step (skipped _ (.head _) here)
        cases none
      · rw [if_neg (by simpa using here)]

theorem combineEntries_inserted
    (combined : combineEntries hasher current levelLen entries next siblings = some (after, rest))
    (present : ∀ entry ∈ entries, entry.1 ∈ current) (distinct : (entries.map Prod.fst).Nodup)
    (member : (index, cv) ∈ entries) (inserts : Inserts current index) :
    ∃ above, after[index / 2]? = some above ∧ hasher.Above cv (index % 2) above ∧
      (index % 2 = 0 → ∀ right, current[index + 1]? = some right →
        above = hasher.parentCv cv right) := by
  induction entries generalizing next siblings with
  | nil => cases member
  | cons entry entries ih =>
    rw [List.map_cons, List.nodup_cons] at distinct
    have tailPresent : ∀ entry ∈ entries, entry.1 ∈ current :=
      fun other inside => present other (.tail _ inside)
    obtain ⟨position, value⟩ := entry
    rw [combineEntries] at combined
    simp only [Option.bind_eq_bind, Option.bind_eq_some_iff, Prod.exists]
      at combined
    obtain ⟨inserted, siblings', step, tail⟩ := combined
    cases member with
    | tail _ inside => exact ih tail tailPresent distinct.2 inside
    | head =>
      obtain ⟨above, rfl, isAbove, paired⟩ := combineEntry_inserts step inserts
      refine ⟨above, ?_, isAbove, paired⟩
      rw [combineEntries_frame tail, insertAbove, Std.ExtTreeMap.getElem?_insert_self]
      -- The only other entry below the same node is the one of the pair
      -- that inserts nothing.
      rintro ⟨other, otherCv⟩ inside half otherInserts
      have same := inserts.eq_of_half otherInserts (present _ (.head _)) (tailPresent _ inside) half
      exact distinct.1 (List.mem_map.mpr ⟨_, inside, same⟩)

theorem combineEntries_above
    (combined : combineEntries hasher current levelLen current.toList ∅ siblings =
      some (next, rest)) (entry : current[index]? = some cv) :
    ∃ above, next[index / 2]? = some above ∧ hasher.Above cv (index % 2) above := by
  have present : ∀ entry ∈ current.toList, entry.1 ∈ current := by
    rintro ⟨position, value⟩ inside
    rw [Std.ExtTreeMap.mem_toList_iff_getElem?_eq_some] at inside
    rw [Std.ExtTreeMap.mem_iff_isSome_getElem?, inside]
    rfl
  have distinct : (current.toList.map Prod.fst).Nodup := by
    rw [List.Nodup, List.pairwise_map]
    refine Std.ExtTreeMap.distinct_keys_toList.imp ?_
    intro first second different same
    apply different
    rw [same]
    exact Std.ReflCmp.compare_self
  by_cases inserts : Inserts current index
  · obtain ⟨above, found, isAbove, _⟩ := combineEntries_inserted combined present
      distinct (Std.ExtTreeMap.mem_toList_iff_getElem?_eq_some.mpr entry) inserts
    exact ⟨above, found, isAbove⟩
  · -- The right one of a pair stands above through its left neighbour.
    unfold Inserts at inserts
    push Not at inserts
    obtain ⟨odd, paired⟩ := inserts
    rw [Std.ExtTreeMap.mem_iff_isSome_getElem?, Option.isSome_iff_exists] at paired
    obtain ⟨left, leftEntry⟩ := paired
    obtain ⟨above, found, _, made⟩ := combineEntries_inserted combined present
      distinct (Std.ExtTreeMap.mem_toList_iff_getElem?_eq_some.mpr leftEntry) (.inl (by omega))
    have next : index - 1 + 1 = index := by omega
    have half : (index - 1) / 2 = index / 2 := by omega
    have bit : index % 2 = 1 := by omega
    rw [half] at found
    rw [made (by omega) cv (by rw [next]; exact entry)] at found
    exact ⟨_, found, bit ▸ .right left⟩

end Levels

abbrev CvTree := HashTree ChunkInput MergeMode Digest

def chunkInput (data : Bytes) (chunkIndex : UInt64) : ChunkInput :=
  ⟨chunkIndex * UInt64.ofNat chunkLen, false, data⟩

theorem Blake3Hasher.withKey_chunkCv (blake3 : Digest → Compression Digest → Digest)
    (key : Digest) (data : Bytes) (chunkIndex : UInt64) :
    (withKey blake3 key).chunkCv data chunkIndex =
      blake3 key (.leaf (chunkInput data chunkIndex)) :=
  rfl

theorem Blake3Hasher.withKey_rootCv (blake3 : Digest → Compression Digest → Digest)
    (key left right : Digest) :
    (withKey blake3 key).rootCv left right = blake3 key (.node .root left right) :=
  rfl

def treeHasher : Blake3Hasher CvTree where
  hash := fun data => .leaf ⟨0, true, data⟩
  chunkCv := fun data chunkIndex => .leaf (chunkInput data chunkIndex)
  parentCv := .node .nonRoot
  rootCv := .node .root

theorem treeHasher_hom (blake3 : Digest → Compression Digest → Digest) (key : Digest) :
    treeHasher.Hom (.withKey blake3 key) (HashTree.digest (blake3 key)) where
  hash := fun _ => rfl
  chunkCv := fun _ _ => rfl
  parentCv := fun _ _ => rfl
  rootCv := fun _ _ => rfl

theorem digest_chunkCv (hash : Compression Digest → Digest) (data : Bytes) (chunkIndex : UInt64) :
    (treeHasher.chunkCv data chunkIndex).digest hash = hash (.leaf (chunkInput data chunkIndex)) :=
  rfl

theorem inputs_chunkCv (hash : Compression Digest → Digest) (data : Bytes) (chunkIndex : UInt64) :
    (treeHasher.chunkCv data chunkIndex).inputs hash = {.leaf (chunkInput data chunkIndex)} :=
  rfl

theorem inputs_rootCv (hash : Compression Digest → Digest) (data : Bytes)
    (chunkIndex : UInt64) (right : CvTree) :
    (treeHasher.rootCv (treeHasher.chunkCv data chunkIndex) right).inputs hash =
      insert (.node .root (hash (.leaf (chunkInput data chunkIndex))) (right.digest hash))
        ({.leaf (chunkInput data chunkIndex)} ∪ right.inputs hash) :=
  rfl

/-- The right turns on the way to a leaf: the ones among the binary digits of
its index, wherever nodes without a neighbour were promoted. -/
def turns (index : Nat) : Nat :=
  (Nat.digits 2 index).sum

theorem turns_eq (index : Nat) : turns index = index % 2 + turns (index / 2) := by
  cases index with
  | zero => rfl
  | succ index =>
    rw [turns, Nat.digits_def' Nat.one_lt_two (Nat.succ_pos index)]
    rfl

theorem turns_double (index : Nat) : turns (2 * index) = turns index := by
  rw [turns_eq, Nat.mul_mod_right, Nat.mul_div_cancel_left _ Nat.two_pos, Nat.zero_add]

theorem turns_double_add_one (index : Nat) : turns (2 * index + 1) = turns index + 1 := by
  rw [turns_eq]
  have bit : (2 * index + 1) % 2 = 1 := by omega
  have half : (2 * index + 1) / 2 = index := by omega
  rw [bit, half, Nat.add_comm]

theorem turns_split (index width : Nat) :
    turns index = turns (index % 2 ^ width) + turns (index / 2 ^ width) := by
  induction width generalizing index with
  | zero => simp [Nat.mod_one, turns]
  | succ width ih =>
    have bit : index % 2 ^ (width + 1) % 2 = index % 2 :=
      Nat.mod_mod_of_dvd _ (Dvd.intro_left (2 ^ width) (pow_succ 2 width).symm)
    have half : index % 2 ^ (width + 1) / 2 = index / 2 % 2 ^ width := by
      rw [pow_succ, mul_comm, Nat.mod_mul_right_div_self]
    have high : index / 2 / 2 ^ width = index / 2 ^ (width + 1) := by
      rw [Nat.div_div_eq_div_mul, pow_succ, mul_comm]
    rw [turns_eq index, ih (index / 2), turns_eq (index % 2 ^ (width + 1)),
      bit, half, high, Nat.add_assoc]

variable {index count : Nat} {tree : CvTree}

theorem turns_pos (positive : 0 < index) : 0 < turns index := by
  induction index using Nat.strong_induction_on with
  | _ index ih =>
    rw [turns_eq]
    by_cases even : index % 2 = 0
    · exact Nat.add_pos_right _ (ih (index / 2) (by omega) (by omega))
    · exact Nat.add_pos_left (Nat.pos_of_ne_zero even) _

/-- Offsets are only kept modulo `2 ^ 64`, but an index that wraps around has
more turns than the one it is confused with. -/
theorem toNat_eq_of_offset_eq {index : UInt64} (small : chunk < 2 ^ 54)
    (offsets : index * UInt64.ofNat chunkLen = UInt64.ofNat chunk * UInt64.ofNat chunkLen)
    (same : turns index.toNat = turns chunk) : index.toNat = chunk := by
  have low : index.toNat % 2 ^ 54 = chunk := by
    have wrapped := congrArg UInt64.toNat offsets
    have bound := index.toNat_lt
    rw [UInt64.toNat_mul, UInt64.toNat_mul, UInt64.toNat_ofNat', UInt64.toNat_ofNat',
      chunkLen] at wrapped
    omega
  have split := turns_split index.toNat 54
  rw [low, same] at split
  have high : index.toNat / 2 ^ 54 = 0 := by
    by_contra nonzero
    have positive := turns_pos (Nat.pos_of_ne_zero nonzero)
    omega
  omega

theorem Blake3Hasher.Above.occurs
    (isAbove : treeHasher.Above tree bit above) (occurs : HashTree.Occurs leaf tree count) :
    HashTree.Occurs leaf above (count + bit) := by
  cases isAbove with
  | promoted => exact occurs
  | left right => exact .left occurs
  | right left => exact .right occurs

theorem climb_occurs
    (climbed : climb treeHasher current levelLen siblings = some (last, rest))
    (entry : current[index]? = some tree) (occurs : HashTree.Occurs leaf tree count) :
    ∃ position top total, last[position]? = some top ∧ HashTree.Occurs leaf top total ∧
      total + turns position = count + turns index ∧ (index < span levelLen → position < 2) := by
  induction levelLen using Nat.strong_induction_on
    generalizing current siblings index count tree with
  | _ levelLen ih =>
    rw [climb] at climbed
    by_cases large : 2 < levelLen
    · rw [if_pos large] at climbed
      simp only [Option.bind_eq_bind, Option.bind_eq_some_iff, Prod.exists]
        at climbed
      obtain ⟨next, siblings', combined, climbed⟩ := climbed
      obtain ⟨above, found, isAbove⟩ := combineEntries_above combined entry
      obtain ⟨position, top, total, last, topOccurs, same, inside⟩ :=
        ih _ (by omega) climbed found (isAbove.occurs occurs)
      refine ⟨position, top, total, last, topOccurs, ?_, ?_⟩
      · rw [same, turns_eq index, Nat.add_assoc]
      · intro low
        rw [span_of_large large] at low
        exact inside (by omega)
    · rw [if_neg large] at climbed
      cases climbed
      refine ⟨index, tree, count, entry, occurs, rfl, ?_⟩
      rw [span_of_small (Nat.not_lt.mp large)]
      exact id

theorem mergeRoot_occurs (merged : mergeRoot treeHasher current siblings = some root)
    (low : index < 2) (entry : current[index]? = some tree)
    (occurs : HashTree.Occurs leaf tree count) :
    HashTree.Occurs leaf root (count + turns index) := by
  unfold mergeRoot at merged
  simp only [Option.bind_eq_bind, Option.bind_eq_some_iff, Prod.exists] at merged
  obtain ⟨left, rest, takenLeft, right, rest', takenRight, merged⟩ := merged
  split at merged
  · cases merged
    rcases (by omega : index = 0 ∨ index = 1) with rfl | rfl
    · rw [takeNode, entry] at takenLeft
      cases takenLeft
      exact .left occurs
    · rw [takeNode, entry] at takenRight
      cases takenRight
      exact .right occurs
  · cases merged

def chunkAt (data : Bytes) (index : Nat) : Bytes :=
  slice data (index * chunkLen) chunkLen

/-- The leaves below position `index` of a layer are chunks of the data, each in
the place of its own index. -/
structure Placed (data : Bytes) (index : Nat) (tree : CvTree) : Prop where
  complete : tree.Complete
  leaves : ∀ leaf count, HashTree.Occurs leaf tree count →
    ∃ chunk < data.length / chunkLen,
      leaf = chunkInput (chunkAt data chunk) (UInt64.ofNat chunk) ∧
        count + turns index = turns chunk

def LayerPlaced (data : Bytes) : (start : Nat) → List CvTree → Prop
  | _, [] => True
  | start, tree :: rest => Placed data start tree ∧ LayerPlaced data (start + 1) rest

variable {data : Bytes}

theorem Placed.node (mode : MergeMode)
    (leftPlaced : Placed data (2 * index) left) (rightPlaced : Placed data (2 * index + 1) right) :
    Placed data index (.node mode left right) where
  complete := ⟨leftPlaced.complete, rightPlaced.complete⟩
  leaves := by
    intro leaf count occurs
    cases occurs with
    | left occurs =>
      obtain ⟨chunk, inside, isChunk, same⟩ := leftPlaced.leaves _ _ occurs
      rw [turns_double] at same
      exact ⟨chunk, inside, isChunk, same⟩
    | right occurs =>
      obtain ⟨chunk, inside, isChunk, same⟩ := rightPlaced.leaves _ _ occurs
      rw [turns_double_add_one] at same
      exact ⟨chunk, inside, isChunk, by omega⟩

theorem Placed.promote (placed : Placed data (2 * index) tree) : Placed data index tree where
  complete := placed.complete
  leaves := by
    intro leaf count occurs
    obtain ⟨chunk, inside, isChunk, same⟩ := placed.leaves leaf count occurs
    rw [turns_double] at same
    exact ⟨chunk, inside, isChunk, same⟩

theorem LayerPlaced.combineLayer {start : Nat} {layer : List CvTree}
    (placed : LayerPlaced data (2 * start) layer) :
    LayerPlaced data start (combineLayer treeHasher layer) := by
  fun_induction PearlBlake3.combineLayer treeHasher layer generalizing start with
  | case1 left right rest ih =>
    obtain ⟨leftPlaced, rightPlaced, restPlaced⟩ := placed
    exact ⟨.node .nonRoot leftPlaced rightPlaced, ih restPlaced⟩
  | case2 single => exact ⟨placed.1.promote, trivial⟩
  | case3 => trivial

theorem layerPlaced_range' (start count : Nat) (inside : start + count ≤ data.length / chunkLen) :
    LayerPlaced data start ((List.range' start count).map fun index =>
      treeHasher.chunkCv (chunkAt data index) (UInt64.ofNat index)) := by
  induction count generalizing start with
  | zero => trivial
  | succ count ih =>
    refine ⟨⟨trivial, ?_⟩, ih (start + 1) (by omega)⟩
    intro leaf count occurs
    cases occurs
    exact ⟨start, by omega, rfl, Nat.zero_add _⟩

namespace MerkleTree

variable {Cv : Type} (hasher : Blake3Hasher Cv)

theorem layersFrom_ne_nil (layer : List Cv) : layersFrom hasher layer ≠ [] := by
  unfold layersFrom
  split
  · exact List.cons_ne_nil _ _
  · split <;> exact List.cons_ne_nil _ _

theorem getLastD_layersFrom_of_large (large : 2 < layer.length) :
    (layersFrom hasher layer).getLastD [] =
      (layersFrom hasher (combineLayer hasher layer)).getLastD [] := by
  rw [layersFrom.eq_def, if_pos large, List.getLastD_cons,
    List.getLastD_eq_getLast?, List.getLastD_eq_getLast?,
    List.getLast?_eq_some_getLast (layersFrom_ne_nil hasher _)]
  rfl

end MerkleTree

theorem exists_root_layersFrom (several : 2 ≤ layer.length)
    (placed : LayerPlaced data 0 layer) :
    ∃ left right, ((MerkleTree.layersFrom treeHasher layer).getLastD []).head? =
        some (.node .root left right) ∧ Placed data 0 (.node .root left right) := by
  induction length : layer.length using Nat.strong_induction_on generalizing layer with
  | _ count ih =>
    by_cases large : 2 < layer.length
    · have shorter := length_combineLayer treeHasher layer
      rw [MerkleTree.getLastD_layersFrom_of_large _ large]
      exact ih _ (by omega) (by omega) placed.combineLayer rfl
    · match layer, several, large with
      | [left, right], _, _ =>
        refine ⟨left, right, ?_, .node .root placed.1 placed.2.1⟩
        rw [MerkleTree.layersFrom]
        rfl
      | _ :: _ :: _ :: _, _, large => exact absurd (by simp) large

theorem numChunks_eq (length : data.length = count * chunkLen) :
    (data.length + chunkLen - 1) / chunkLen = count ∧ data.length / chunkLen = count := by
  rw [length, chunkLen]
  omega

/-- A tree that stands for a root: no inner value is hashed as it is, and its
inner leaves are the chunks of the data in their places. -/
structure IsRootOf (data : Bytes) (tree : CvTree) : Prop where
  complete : tree.Complete
  isRoot : tree = .leaf ⟨0, true, data⟩ ∨ ∃ left right, tree = .node .root left right
  leaves : ∀ leaf count, HashTree.Occurs leaf tree count → leaf.isRoot = false →
    ∃ chunk < data.length / chunkLen, leaf = chunkInput (chunkAt data chunk) (UInt64.ofNat chunk) ∧
        count = turns chunk

theorem exists_root_new (length : data.length = count * chunkLen) (positive : 0 < count) :
    ∃ tree, (MerkleTree.new treeHasher data).root = some tree ∧ IsRootOf data tree := by
  obtain ⟨rounded, divided⟩ := numChunks_eq length
  have nonempty : data ≠ [] := by
    rintro rfl
    rw [chunkLen, List.length_nil] at length
    omega
  unfold MerkleTree.new
  rw [if_neg nonempty]
  by_cases single : data.length ≤ chunkLen
  · rw [if_pos single]
    refine ⟨_, rfl, trivial, .inl rfl, ?_⟩
    intro leaf count occurs inner
    cases occurs
    cases inner
  · rw [if_neg single]
    have several : 2 ≤ count := by
      rw [length, chunkLen] at single
      omega
    have placed : LayerPlaced data 0 (hashChunks treeHasher data) := by
      rw [hashChunks, rounded, List.range_eq_range']
      exact layerPlaced_range' 0 count (by omega)
    have layerLength : (hashChunks treeHasher data).length = count := by
      rw [hashChunks, List.length_map, List.length_range, rounded]
    obtain ⟨left, right, isRoot, rootPlaced⟩ := exists_root_layersFrom (by omega) placed
    refine ⟨_, isRoot, rootPlaced.complete, .inr ⟨left, right, rfl⟩, ?_⟩
    intro leaf count occurs _
    exact rootPlaced.leaves leaf count occurs

theorem IsRootOf.digest_ne {hash : Compression Digest → Digest}
    (isRootOf : IsRootOf data full) {index : UInt64}
    (injective : Set.InjOn hash (full.inputs hash ∪
      (HashTree.leaf (chunkInput bytes index) : CvTree).inputs hash)) :
    (HashTree.leaf (chunkInput bytes index) : CvTree).digest hash ≠ full.digest hash := by
  intro digests
  rcases isRootOf.isRoot with rfl | ⟨left, right, rfl⟩
  · have same := injective (.inr rfl) (.inl rfl) digests
    have flags := congrArg ChunkInput.isRoot (HashInput.leaf.inj same)
    cases flags
  · have same := injective (.inr rfl) (.inl (Set.mem_insert _ _)) digests
    cases same

section Digests

variable {α β : Type} {source : Blake3Hasher α} {target : Blake3Hasher β}
  {map : α → β} (hom : source.Hom target map)

include hom

theorem combineLayer_map (layer : List α) :
    combineLayer target (layer.map map) = (combineLayer source layer).map map := by
  fun_induction combineLayer source layer with
  | case1 left right rest ih =>
    simp only [List.map_cons, combineLayer, ih, hom.parentCv]
  | case2 single => rfl
  | case3 => rfl

theorem MerkleTree.layersFrom_map (layer : List α) : layersFrom target (layer.map map) =
      (layersFrom source layer).map (List.map map) := by
  induction length : layer.length using Nat.strong_induction_on generalizing layer with
  | _ count ih =>
    have shorter := length_combineLayer source layer
    rw [layersFrom.eq_def, layersFrom.eq_def source, List.length_map]
    by_cases large : 2 < layer.length
    · rw [if_pos large, if_pos large, combineLayer_map hom, ih _ (by omega) _ rfl, List.map_cons]
    · rw [if_neg large, if_neg large]
      match layer with
      | [] => rfl
      | [single] => rfl
      | [left, right] => simp [hom.rootCv]
      | _ :: _ :: _ :: _ => rfl

theorem MerkleTree.root_new (data : Bytes) :
    (new target data).root = (new source data).root.map map := by
  have chunks : hashChunks target data = (hashChunks source data).map map := by
    simp only [hashChunks, List.map_map, Function.comp_def, hom.chunkCv]
  unfold new
  by_cases empty : data = []
  · rw [if_pos empty, if_pos empty]
    rfl
  · rw [if_neg empty, if_neg empty]
    by_cases single : data.length ≤ chunkLen
    · rw [if_pos single, if_pos single]
      exact congrArg some (hom.hash data).symm
    · rw [if_neg single, if_neg single]
      simp only [root, chunks, layersFrom_map hom]
      rw [List.getLastD_eq_getLast?, List.getLastD_eq_getLast?, List.getLast?_map]
      cases (layersFrom source (hashChunks source data)).getLast? with
      | none => rfl
      | some layer => exact List.head?_map

end Digests

variable (blake3 : Digest → Compression Digest → Digest) (key : Digest)

def dataInputs (data : Bytes) : Set (Compression Digest) :=
  {input | ∃ tree, (MerkleTree.new treeHasher data).root = some tree ∧
    input ∈ tree.inputs (blake3 key)}

namespace MerkleProof

def proofInputs (proof : MerkleProof Digest) : Set (Compression Digest) :=
  {input | ∃ tree, (proof.mapCv .given).computeRoot treeHasher = .ok (some tree) ∧
    input ∈ tree.inputs (blake3 key)}

variable {blake3 key} {proof : MerkleProof Digest}

theorem mapCv_digest (proof : MerkleProof Digest) :
    (proof.mapCv .given).mapCv (HashTree.digest (blake3 key)) = proof := by
  cases proof
  simp only [mapCv, List.map_map, Function.comp_def, HashTree.digest, List.map_id_fun', id]

theorem exists_openedTree {root : Digest}
    (computed : proof.computeRoot (.withKey blake3 key) = .ok (some root)) :
    ∃ tree, (proof.mapCv .given).computeRoot treeHasher = .ok (some tree) ∧
      tree.digest (blake3 key) = root := by
  have runs := computeRoot_mapCv (treeHasher_hom blake3 key) (proof.mapCv .given)
  rw [mapCv_digest, computed] at runs
  revert runs
  cases (proof.mapCv .given).computeRoot treeHasher with
  | error panic => rintro ⟨⟩
  | ok opened =>
    cases opened with
    | none => rintro ⟨⟩
    | some tree =>
      intro runs
      cases runs
      exact ⟨tree, rfl, rfl⟩

theorem verify_eq_true_iff : proof.verify (.withKey blake3 key) = .ok true ↔
      proof.computeRoot (.withKey blake3 key) = .ok (some proof.root) := by
  unfold verify
  cases proof.computeRoot (.withKey blake3 key) with
  | error panic => exact ⟨by rintro ⟨⟩, by rintro ⟨⟩⟩
  | ok computed =>
    simp only [bind, Except.bind, pure, Except.pure, Except.ok.injEq, decide_eq_true_eq]

theorem occurs_computeRoot {opening : MerkleProof CvTree}
    (computed : opening.computeRoot treeHasher = .ok (some tree))
    (several : opening.totalLeaves ≠ 1) (last : opening.lastLeaf index = some leaf)
    (inside : index < span opening.totalLeaves.toNat) :
    HashTree.Occurs (chunkInput leaf.2.bytes leaf.1) tree (turns index) := by
  have entry : (opening.leafMap treeHasher)[index]? =
      some (.leaf (chunkInput leaf.2.bytes leaf.1)) := by
    rw [getElem?_leafMap, last]
    rfl
  unfold computeRoot at computed
  split at computed
  · cases computed
  · simp only [Except.ok.injEq, Option.bind_eq_bind, Option.bind_eq_some_iff,
      Prod.exists] at computed
    obtain ⟨current, rest, climbed, merged⟩ := computed
    obtain ⟨position, top, total, found, occurs, same, low⟩ := climb_occurs climbed entry .leaf
    have placed := mergeRoot_occurs merged (low inside) found occurs
    rwa [same, Nat.zero_add] at placed

theorem computeRoot_of_one {opening : MerkleProof CvTree}
    (computed : opening.computeRoot treeHasher = .ok (some tree)) (one : opening.totalLeaves = 1) :
    ∃ data index, tree = .leaf (chunkInput data index) := by
  unfold computeRoot at computed
  split at computed
  · cases computed
  · split at computed
    · rw [getElem?_leafMap] at computed
      revert computed
      cases opening.lastLeaf 0 with
      | none => rintro ⟨⟩
      | some leaf =>
        intro computed
        cases computed
        exact ⟨_, _, rfl⟩
    · cases computed

/-- The openings in which every leaf takes part in the root: no index is listed
twice and all are within the span. -/
structure TiesLeaves (proof : MerkleProof Digest) : Prop where
  distinct : (proof.leaves.map Prod.fst).Nodup
  inside : ∀ leaf ∈ proof.leaves, leaf.1.toNat < span proof.totalLeaves.toNat

/-- No two of the hashes behind the two roots collide. -/
def CollisionFree (blake3 : Digest → Compression Digest → Digest) (key : Digest)
    (data : Bytes) (proof : MerkleProof Digest) : Prop :=
  Set.InjOn (blake3 key) (dataInputs blake3 key data ∪ proof.proofInputs blake3 key)

theorem leaf_of_verify (length : data.length = count * chunkLen)
    (positive : 0 < count) (bounded : data.length < 2 ^ 63)
    (rooted : (MerkleTree.new (.withKey blake3 key) data).root = some proof.root)
    (collisionFree : proof.CollisionFree blake3 key data)
    (verified : proof.verify (.withKey blake3 key) = .ok true)
    (tied : proof.TiesLeaves) (member : leaf ∈ proof.leaves) :
    leaf.1.toNat < count ∧ leaf.2.bytes = chunkAt data leaf.1.toNat := by
  obtain ⟨tree, opened, treeDigest⟩ := exists_openedTree (verify_eq_true_iff.mp verified)
  obtain ⟨full, fullRoot, isRootOf⟩ := exists_root_new length positive
  have fullDigest : full.digest (blake3 key) = proof.root := by
    rw [MerkleTree.root_new (treeHasher_hom blake3 key), fullRoot] at rooted
    exact Option.some.inj rooted
  have injective : Set.InjOn (blake3 key)
      (full.inputs (blake3 key) ∪ tree.inputs (blake3 key)) := by
    apply Set.InjOn.mono _ collisionFree
    rintro input (inFull | inTree)
    · exact .inl ⟨full, fullRoot, inFull⟩
    · exact .inr ⟨tree, opened, inTree⟩
  have digests : tree.digest (blake3 key) = full.digest (blake3 key) :=
    treeDigest.trans fullDigest.symm
  have several : proof.totalLeaves ≠ 1 := by
    intro one
    obtain ⟨bytes, index, rfl⟩ := computeRoot_of_one opened one
    exact isRootOf.digest_ne injective digests
  have last : proof.lastLeaf leaf.1.toNat = some leaf := lastLeaf_eq_of_mem tied.distinct member
  have occurs := occurs_computeRoot opened several last (tied.inside leaf member)
  obtain ⟨chunk, below, isChunk, same⟩ := isRootOf.leaves _ _
    (occurs.of_digest_eq isRootOf.complete injective digests) rfl
  rw [(numChunks_eq length).2] at below
  have indices : leaf.1.toNat = chunk := by
    refine toNat_eq_of_offset_eq ?_ (congrArg ChunkInput.offset isChunk) same
    rw [length, chunkLen] at bounded
    omega
  rw [indices]
  exact ⟨below, congrArg ChunkInput.data isChunk⟩

end MerkleProof

end ModelOS.PearlBlake3
