import ModelOS.PearlBlake3.ExtractBytes
import ModelOS.PearlBlake3.MerkleBinding

namespace ModelOS.PearlBlake3

open Data

namespace MerkleProof

structure Opens (data : Bytes) (proof : MerkleProof Digest) : Prop where
  leaves : ∀ leaf ∈ proof.leaves, leaf.2.bytes = chunkAt data leaf.1.toNat
  extract : ∀ globalStart length result, proof.extractBytes globalStart length = .ok (.ok result) →
      result = slice data globalStart.toNat length.toNat

def refill (proof : MerkleProof Digest) (leafData : List Chunk) : MerkleProof Digest :=
  { proof with leafData }

def Binds (blake3 : Digest → Compression Digest → Digest) (key : Digest)
    (data : Bytes) (proof : MerkleProof Digest) : Prop :=
  ∀ leafData : List Chunk, leafData.length = proof.leafData.length →
    (proof.refill leafData).CollisionFree blake3 key data →
    (proof.refill leafData).verify (.withKey blake3 key) = .ok true →
      (proof.refill leafData).Opens data

/-- The openings that panic: a single leaf is announced, but not listed. -/
structure LacksSingleLeaf (proof : MerkleProof Digest) : Prop where
  one : proof.totalLeaves = 1
  noSiblings : proof.siblings = []
  indices : proof.leafIndices ≠ []
  absent : ∀ leaf ∈ proof.leaves, leaf.1 ≠ 0

theorem computeRoot_panics_iff (hasher : Blake3Hasher Digest) (proof : MerkleProof Digest) :
    (∃ panic, proof.computeRoot hasher = .error panic) ↔ proof.LacksSingleLeaf := by
  have absent : proof.lastLeaf 0 = none ↔ ∀ leaf ∈ proof.leaves, leaf.1 ≠ 0 := by
    rw [lastLeaf, List.find?_eq_none]
    simp only [List.mem_reverse, decide_eq_true_eq]
    refine forall₂_congr fun leaf _ => not_congr ?_
    exact ⟨fun zero => UInt64.toNat_inj.mp zero, congrArg UInt64.toNat⟩
  unfold computeRoot
  by_cases noIndices : proof.leafIndices = []
  · rw [if_pos noIndices]
    exact iff_of_false (by rintro ⟨panic, ⟨⟩⟩) fun lacks => lacks.indices noIndices
  · rw [if_neg noIndices]
    by_cases one : proof.totalLeaves = 1
    · rw [if_pos one]
      by_cases noSiblings : proof.siblings.isEmpty
      · rw [if_pos noSiblings, getElem?_leafMap]
        have siblings := List.isEmpty_iff.mp noSiblings
        cases found : proof.lastLeaf 0 with
        | none => exact iff_of_true ⟨_, rfl⟩ ⟨one, siblings, noIndices, absent.mp found⟩
        | some leaf =>
          refine iff_of_false (by rintro ⟨panic, ⟨⟩⟩) fun lacks => ?_
          rw [absent.mpr lacks.absent] at found
          cases found
      · rw [if_neg noSiblings]
        refine iff_of_false (by rintro ⟨panic, ⟨⟩⟩) fun lacks => noSiblings ?_
        exact List.isEmpty_iff.mpr lacks.noSiblings
    · rw [if_neg one]
      exact iff_of_false (by rintro ⟨panic, ⟨⟩⟩) fun lacks => one lacks.one

theorem map_fst_zip (indices : List UInt64) (data : List Chunk) :
    (indices.zip data).map Prod.fst = indices.take data.length := by
  induction indices generalizing data with
  | nil => rw [List.zip_nil_left, List.take_nil, List.map_nil]
  | cons index indices ih =>
    cases data with
    | nil => rfl
    | cons chunk data =>
      rw [List.zip_cons_cons, List.map_cons, ih]
      rfl

variable {proof : MerkleProof Digest}

theorem binds_of_tiesLeaves (length : data.length = count * chunkLen) (positive : 0 < count)
    (bounded : data.length < 2 ^ 63)
    (rooted : (MerkleTree.new (.withKey blake3 key) data).root = some proof.root)
    (tied : proof.TiesLeaves) : proof.Binds blake3 key data := by
  intro leafData sameLength collisionFree verified
  have indices : (proof.refill leafData).leaves.map Prod.fst = proof.leaves.map Prod.fst := by
    rw [leaves, leaves, map_fst_zip, map_fst_zip, refill, sameLength]
  have refilled : (proof.refill leafData).TiesLeaves := by
    refine ⟨by rw [indices]; exact tied.distinct, ?_⟩
    intro leaf member
    have listed : leaf.1 ∈ proof.leaves.map Prod.fst := by
      rw [← indices]
      exact List.mem_map_of_mem member
    obtain ⟨other, inside, same⟩ := List.mem_map.mp listed
    rw [← same]
    exact tied.inside other inside
  have opened : ∀ leaf ∈ (proof.refill leafData).leaves,
      leaf.1.toNat < count ∧ leaf.2.bytes = chunkAt data leaf.1.toNat := by
    intro leaf member
    apply leaf_of_verify length positive bounded _ collisionFree verified refilled member
    exact rooted
  refine ⟨fun leaf member => (opened leaf member).2, ?_⟩
  intro globalStart size result extracted
  refine extractBytes_eq_slice bounded ?_ refilled.distinct extracted
  intro leaf member
  obtain ⟨below, bytes⟩ := opened leaf member
  refine ⟨?_, bytes⟩
  rw [length]
  exact Nat.mul_le_mul_right _ below

def Untied (proof : MerkleProof Digest) (before : List (UInt64 × Chunk))
    (leaf : UInt64 × Chunk) (after : List (UInt64 × Chunk)) : Prop :=
  proof.leaves = before ++ leaf :: after ∧
    (leaf.1 ∈ after.map Prod.fst ∨ span proof.totalLeaves.toNat ≤ leaf.1.toNat)

theorem exists_repeated {leaves : List (UInt64 × Chunk)}
    (repeated : ¬ (leaves.map Prod.fst).Nodup) :
    ∃ before leaf after, leaves = before ++ leaf :: after ∧ leaf.1 ∈ after.map Prod.fst := by
  induction leaves with
  | nil => exact absurd List.nodup_nil repeated
  | cons leaf leaves ih =>
    rw [List.map_cons, List.nodup_cons, not_and_or, not_not] at repeated
    rcases repeated with later | repeated
    · exact ⟨[], leaf, leaves, rfl, later⟩
    · obtain ⟨before, other, after, rfl, later⟩ := ih repeated
      exact ⟨leaf :: before, other, after, rfl, later⟩

theorem exists_untied (loose : ¬ proof.TiesLeaves) :
    ∃ before leaf after, proof.Untied before leaf after := by
  by_cases distinct : (proof.leaves.map Prod.fst).Nodup
  · have outside : ∃ leaf ∈ proof.leaves, span proof.totalLeaves.toNat ≤ leaf.1.toNat := by
      by_contra inside
      push Not at inside
      exact loose ⟨distinct, inside⟩
    obtain ⟨leaf, member, beyond⟩ := outside
    obtain ⟨before, after, split⟩ := List.append_of_mem member
    exact ⟨before, leaf, after, split, .inr beyond⟩
  · obtain ⟨before, leaf, after, split, later⟩ := exists_repeated distinct
    exact ⟨before, leaf, after, split, .inl later⟩

theorem exists_refill
    (split : proof.leaves = before ++ leaf :: after) (chunk : Chunk) :
    ∃ leafData : List Chunk, leafData.length = proof.leafData.length ∧
      (proof.refill leafData).leaves = before ++ (leaf.1, chunk) :: after := by
  obtain ⟨indices, indices', data, data', lengths, indicesSplit, dataSplit,
    beforeZip, afterZip⟩ := List.zip_eq_append_iff.mp split
  obtain ⟨indicesTail, dataTail, rfl, rfl, rfl⟩ := List.zip_eq_cons_iff.mp afterZip.symm
  refine ⟨data ++ chunk :: dataTail, ?_, ?_⟩
  · rw [dataSplit, List.length_append, List.length_append]
    rfl
  · rw [leaves, refill, indicesSplit, List.zip_append lengths, beforeZip]
    rfl

theorem find?_reverse_split (matching : UInt64 × Chunk → Bool)
    (before : List (UInt64 × Chunk)) (leaf : UInt64 × Chunk) (after : List (UInt64 × Chunk)) :
    (before ++ leaf :: after).reverse.find? matching = (after.reverse.find? matching).or
        (if matching leaf then some leaf else before.reverse.find? matching) := by
  rw [List.reverse_append, List.reverse_cons, List.append_assoc,
    List.singleton_append, List.find?_append, List.find?_cons]
  cases matching leaf <;> rfl

theorem Untied.lastLeaf_refill {refilled : MerkleProof Digest}
    (untied : proof.Untied before leaf after)
    (split : refilled.leaves = before ++ (leaf.1, chunk) :: after) (index : Nat) : Option.Rel
      (fun leaf other => index < span proof.totalLeaves.toNat → leaf = other)
      (proof.lastLeaf index) (refilled.lastLeaf index) := by
  rw [lastLeaf, lastLeaf, untied.1, split, find?_reverse_split, find?_reverse_split]
  cases later : after.reverse.find? (·.1.toNat = index) with
  | some found =>
    refine .some ?_
    exact fun _ => rfl
  | none =>
    rw [Option.none_or, Option.none_or]
    by_cases here : leaf.1.toNat = index
    · rw [if_pos (decide_eq_true here), if_pos (decide_eq_true here)]
      refine .some fun inside => ?_
      -- Within the span the leaf would have to be listed again.
      rcases untied.2 with listed | beyond
      · obtain ⟨other, member, same⟩ := List.mem_map.mp listed
        rw [List.find?_eq_none] at later
        refine absurd ?_ (later other (List.mem_reverse.mpr member))
        rw [same, here, decide_eq_true_eq]
      · omega
    · rw [if_neg (by simpa using here), if_neg (by simpa using here)]
      cases before.reverse.find? (·.1.toNat = index) with
      | none => exact .none
      | some found =>
        refine .some ?_
        exact fun _ => rfl

theorem exists_other_chunk (bytes : Bytes) : ∃ chunk : Chunk, chunk.bytes ≠ bytes := by
  have different : (FixedBytes.zero chunkLen).bytes ≠ (FixedBytes.copy chunkLen [1]).bytes := by
    intro same
    have one : (1 : UInt8) ∈ (FixedBytes.copy chunkLen [1]).bytes := .head _
    rw [← same] at one
    exact absurd (List.eq_of_mem_replicate one) (by decide)
  by_cases first : (FixedBytes.zero chunkLen).bytes = bytes
  · exact ⟨.copy chunkLen [1], fun second => different (first.trans second.symm)⟩
  · exact ⟨_, first⟩

theorem tiesLeaves_of_binds (collisionFree : proof.CollisionFree blake3 key data)
    (verified : proof.verify (.withKey blake3 key) = .ok true)
    (binds : proof.Binds blake3 key data) :
    proof.TiesLeaves := by
  by_contra loose
  obtain ⟨before, leaf, after, untied⟩ := exists_untied loose
  obtain ⟨chunk, other⟩ := exists_other_chunk (chunkAt data leaf.1.toNat)
  obtain ⟨leafData, length, split⟩ := exists_refill untied.1 chunk
  have agree := untied.lastLeaf_refill split
  have sameRoot : (proof.refill leafData).computeRoot (.withKey blake3 key) =
      proof.computeRoot (.withKey blake3 key) := by
    symm
    exact computeRoot_congr rfl rfl rfl agree
  have sameTree : ((proof.refill leafData).mapCv .given).computeRoot treeHasher =
      (proof.mapCv .given).computeRoot treeHasher := by
    symm
    exact computeRoot_congr rfl rfl rfl agree
  have refilled : (proof.refill leafData).Opens data := by
    apply binds leafData length
    · rw [CollisionFree, proofInputs, sameTree]
      exact collisionFree
    · rw [verify_eq_true_iff, sameRoot]
      exact verify_eq_true_iff.mp verified
  have held := refilled.leaves (leaf.1, chunk) (by rw [split]; simp)
  exact other held

/-- The reconstruction panics exactly when a single leaf is announced and not
listed.  An opening that verifies binds its leaves exactly when each of them
takes part in the root. -/
theorem computeRoot_panics_and_binds_iff
    {blake3 : Digest → Compression Digest → Digest} {key : Digest} {data : Bytes}
    {count : Nat} {proof : MerkleProof Digest}
    (length : data.length = count * chunkLen) (positive : 0 < count)
    (bounded : data.length < 2 ^ 63)
    (rooted : (MerkleTree.new (.withKey blake3 key) data).root = some proof.root)
    (collisionFree : proof.CollisionFree blake3 key data) :
    ((∃ panic, proof.computeRoot (.withKey blake3 key) = .error panic) ↔ proof.LacksSingleLeaf) ∧
      (proof.verify (.withKey blake3 key) = .ok true →
        (proof.Binds blake3 key data ↔ proof.TiesLeaves)) := by
  refine ⟨computeRoot_panics_iff _ proof, fun verified => ⟨?_, ?_⟩⟩
  · exact tiesLeaves_of_binds collisionFree verified
  · exact binds_of_tiesLeaves length positive bounded rooted

end MerkleProof

namespace OpeningExample

def zeros : Chunk := .copy chunkLen (List.replicate chunkLen 0)

def ones : Chunk := .copy chunkLen (List.replicate chunkLen 1)

def data : Bytes := zeros.bytes ++ ones.bytes

def key : Digest := .zero 32

def zerosCv : Digest :=
  .ofNat 32 0xfe5332419402d2ee021b95a05cfd45bc056c3bef5c0671a0ca2f8a35595bbef4

def onesCv : Digest :=
  .ofNat 32 0x2415cfc8f1a3c015a2ae90f50514cbbe6bf197e6f1ef3a012fc333f82b283d3c

def onesCvFirst : Digest :=
  .ofNat 32 0x55d6dd3011b1ef95e716ba23c4e2dda789e7c4cfda29e4f23d1672ac91c85b45

def onesCvThird : Digest :=
  .ofNat 32 0x5c25a4b7c3e8560f629a43dd004adffde7481b83094b0e0d75057cce24505d06

def dataRoot : Digest :=
  .ofNat 32 0xc40a5cec6d00897640831be64f6e1d494640fe269d44781dbe6ae7d650c3cfff

def blake3 (_ : Digest) : Compression Digest → Digest
  | .leaf input =>
    if input = chunkInput zeros.bytes 0 then zerosCv
    else if input = chunkInput ones.bytes 1 then onesCv
    else if input = chunkInput ones.bytes 0 then onesCvFirst
    else if input = chunkInput ones.bytes 2 then onesCvThird
    else key
  | .node mode left right =>
    if mode = .root ∧ left = zerosCv ∧ right = onesCv then dataRoot else key

/-- An opening of a tree of two leaves, given the second one's chaining value. -/
def opening (leafIndices : List UInt64) (leafData : List Chunk) : MerkleProof Digest where
  leafData := leafData
  leafIndices := leafIndices
  totalLeaves := 2
  root := dataRoot
  siblings := [onesCv]

theorem length_data : data.length = 2 * chunkLen := by
  rw [data, List.length_append, FixedBytes.length_bytes, FixedBytes.length_bytes, two_mul]

theorem root_new_data (hasher : Blake3Hasher Cv) :
    (MerkleTree.new hasher data).root = some (hasher.rootCv
      (hasher.chunkCv zeros.bytes 0) (hasher.chunkCv ones.bytes 1)) := by
  have chunks : hashChunks hasher data =
      [hasher.chunkCv zeros.bytes 0, hasher.chunkCv ones.bytes 1] := by
    have first : slice data (0 * chunkLen) chunkLen = zeros.bytes := by
      decide +kernel
    have second : slice data (1 * chunkLen) chunkLen = ones.bytes := by
      decide +kernel
    have count : (data.length + chunkLen - 1) / chunkLen = 2 := by
      rw [length_data]
      decide
    rw [hashChunks, count]
    simp only [List.range_succ, List.range_zero, List.nil_append, List.map_append,
      List.map_cons, List.map_nil, first, second]
    rfl
  rw [MerkleTree.new, if_neg (List.ne_nil_of_length_pos (by rw [length_data]; decide)),
    if_neg (by rw [length_data]; decide),
    MerkleTree.root, chunks, MerkleTree.layersFrom.eq_def, if_neg (by simp)]
  rfl

theorem computeRoot_opening {Cv : Type} (hasher : Blake3Hasher Cv)
    {proof : MerkleProof Cv} {leaf : UInt64 × Chunk} {sibling : Cv}
    (indices : proof.leafIndices ≠ []) (two : proof.totalLeaves = 2)
    (siblings : proof.siblings = [sibling]) (left : proof.lastLeaf 0 = some leaf)
    (right : proof.lastLeaf 1 = none) : proof.computeRoot hasher = .ok (some (hasher.rootCv
      (hasher.chunkCv leaf.2.bytes leaf.1) sibling)) := by
  rw [MerkleProof.computeRoot, if_neg indices, two, if_neg (by decide), climb,
    if_neg (by decide), siblings]
  simp only [Option.bind_eq_bind, Option.bind_some, mergeRoot, takeNode,
    MerkleProof.getElem?_leafMap, left, right]
  rfl

theorem blake3_zeros : blake3 key (.leaf (chunkInput zeros.bytes 0)) = zerosCv := by
  rw [blake3, if_pos rfl]

theorem blake3_ones : blake3 key (.leaf (chunkInput ones.bytes 1)) = onesCv := by
  decide +kernel

theorem blake3_root : blake3 key (.node .root zerosCv onesCv) = dataRoot := by
  rw [blake3, if_pos ⟨rfl, rfl, rfl⟩]

theorem root_data : (MerkleTree.new (.withKey blake3 key) data).root = some dataRoot := by
  rw [root_new_data, Blake3Hasher.withKey_rootCv, Blake3Hasher.withKey_chunkCv,
    Blake3Hasher.withKey_chunkCv, blake3_zeros, blake3_ones, blake3_root]

theorem verify_opening {proof : MerkleProof Digest}
    (indices : proof.leafIndices ≠ []) (two : proof.totalLeaves = 2)
    (siblings : proof.siblings = [onesCv]) (root : proof.root = dataRoot)
    (left : proof.lastLeaf 0 = some (0, zeros)) (right : proof.lastLeaf 1 = none) :
    proof.verify (.withKey blake3 key) = .ok true := by
  rw [MerkleProof.verify_eq_true_iff, computeRoot_opening _ indices two siblings
    left right, root, Blake3Hasher.withKey_rootCv, Blake3Hasher.withKey_chunkCv,
    blake3_zeros, blake3_root]

theorem injOn_blake3 : Set.InjOn (blake3 key)
    {.node .root zerosCv onesCv, .leaf (chunkInput zeros.bytes 0),
      .leaf (chunkInput ones.bytes 1)} := by
  have distinct : ([.node .root zerosCv onesCv, .leaf (chunkInput zeros.bytes 0),
      .leaf (chunkInput ones.bytes 1)].map (blake3 key)).Nodup := by
    simp only [List.map_cons, List.map_nil, blake3_root, blake3_zeros, blake3_ones]
    decide
  intro first inFirst second inSecond equal
  exact List.inj_on_of_nodup_map distinct (by simpa using inFirst) (by simpa using inSecond) equal

theorem collisionFree_opening : (opening [0] [zeros]).CollisionFree blake3 key data := by
  apply injOn_blake3.mono
  rintro input (⟨tree, root, inTree⟩ | ⟨tree, computed, inTree⟩)
  · rw [root_new_data] at root
    rw [← Option.some.inj root, inputs_rootCv, digest_chunkCv, inputs_chunkCv,
      blake3_zeros, blake3_ones] at inTree
    rcases inTree with isRoot | isZeros | isOnes
    · exact .inl isRoot
    · exact .inr (.inl isZeros)
    · exact .inr (.inr isOnes)
  · rw [@computeRoot_opening _ treeHasher _ (0, zeros) (.given onesCv)
      (List.cons_ne_nil _ _) rfl rfl rfl rfl] at computed
    rw [← Option.some.inj (Except.ok.inj computed), inputs_rootCv, blake3_zeros] at inTree
    rcases inTree with isRoot | isZeros | absent
    · exact .inl isRoot
    · exact .inr (.inl isZeros)
    · exact absent.elim

theorem tiesLeaves_opening : (opening [0] [zeros]).TiesLeaves := by
  refine ⟨List.nodup_singleton 0, ?_⟩
  intro leaf member
  cases List.mem_singleton.mp member
  rw [span_eq]
  exact Nat.two_pow_pos _

theorem opening_binds : (opening [0] [zeros]).verify (.withKey blake3 key) = .ok true ∧
      (opening [0] [zeros]).Binds blake3 key data := by
  have verified : (opening [0] [zeros]).verify (.withKey blake3 key) = .ok true :=
    verify_opening (List.cons_ne_nil _ _) rfl rfl rfl rfl rfl
  obtain ⟨_, binds⟩ := MerkleProof.computeRoot_panics_and_binds_iff
    length_data Nat.two_pos (by rw [length_data]; decide) root_data collisionFree_opening
  exact ⟨verified, (binds verified).mpr tiesLeaves_opening⟩

/-- The first of two leaves with one index, and a leaf beyond the last one, hold
what was never hashed into the root; a single leaf other than the first is looked
up in vain. -/
theorem forged_openings_verify : (MerkleTree.new (.withKey blake3 key) data).root = some dataRoot ∧
      (opening [0, 0] [ones, zeros]).verify (.withKey blake3 key) = .ok true ∧
      ¬ (opening [0, 0] [ones, zeros]).Opens data ∧
      (opening [0, 2] [zeros, ones]).verify (.withKey blake3 key) = .ok true ∧
      (opening [0, 2] [zeros, ones]).extractBytes 2048 4 = .ok (.ok [1, 1, 1, 1]) ∧
      slice data 2048 4 = [] ∧
      ({ opening [1] [ones] with
        totalLeaves := 1
        siblings := [] } : MerkleProof Digest).computeRoot
          (.withKey blake3 key) = .error .noEntryFoundForKey := by
  refine ⟨root_data, ?_, ?_, ?_, ?_, ?_, ?_⟩
  · exact verify_opening (List.cons_ne_nil _ _) rfl rfl rfl rfl rfl
  · intro opens
    have first := opens.leaves (0, ones) (.head _)
    revert first
    decide
  · exact verify_opening (List.cons_ne_nil _ _) rfl rfl rfl rfl rfl
  · decide
  · decide +kernel
  · rfl

end OpeningExample

end ModelOS.PearlBlake3
