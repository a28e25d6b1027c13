import ModelOS.PearlBlake3.MerkleRuns

namespace ModelOS.PearlBlake3

open Data

/-! Leaves that are chunks of one byte string, no chunk twice: then the count of copied
bytes is the number of positions covered. -/

theorem getElem?_overwrite
    (fits : offset + source.length ≤ target.length) (position : Nat) :
    (overwrite target offset source)[position]? =
      if offset ≤ position ∧ position < offset + source.length then
        source[position - offset]?
      else target[position]? := by
  have front : (target.take offset).length = offset := by
    rw [List.length_take]
    omega
  unfold overwrite
  by_cases before : position < offset
  · rw [if_neg (by omega), List.append_assoc, List.getElem?_append_left (by omega),
      List.getElem?_take_of_lt before]
  · rw [List.append_assoc, List.getElem?_append_right (by omega), front]
    by_cases within : position < offset + source.length
    · rw [if_pos ⟨by omega, within⟩, List.getElem?_append_left (by omega)]
    · rw [if_neg (by omega), List.getElem?_append_right (by omega), List.getElem?_drop]
      congr 1
      omega

theorem length_overwrite
    (fits : offset + source.length ≤ target.length) :
    (overwrite target offset source).length = target.length := by
  simp only [overwrite, List.length_append, List.length_take, List.length_drop]
  omega

section Copy

variable {data : Bytes} {start length : Nat}

/-- The positions whose chunk is among the given ones. -/
def covered (start length : Nat) (chunks : List Nat) : Finset Nat :=
  (Finset.range length).filter fun position =>
    (start + position) / chunkLen ∈ chunks

variable {chunks : List Nat} {globalStart : UInt64}

theorem mem_covered : position ∈ covered start length chunks ↔
      position < length ∧ (start + position) / chunkLen ∈ chunks := by
  rw [covered, Finset.mem_filter, Finset.mem_range]

/-- What has been copied after the leaves of the given chunks. -/
structure Copied (data : Bytes) (start length : Nat) (chunks : List Nat)
    (progress : Bytes × Nat) : Prop where
  resultLength : progress.1.length = length
  copied : progress.2 = (covered start length chunks).card
  bytes : ∀ position ∈ covered start length chunks, progress.1[position]? = data[start + position]?

theorem copied_nil (data : Bytes) (start length : Nat) :
    Copied data start length [] (List.replicate length 0, 0) where
  resultLength := List.length_replicate
  copied := by simp [covered]
  bytes := by simp [covered]

theorem card_covered_cons {chunk : Nat} (fresh : chunk ∉ chunks) :
    (covered start length (chunk :: chunks)).card =
      (min (start + length) (chunk * chunkLen + chunkLen) -
        max start (chunk * chunkLen)) + (covered start length chunks).card := by
  have split : covered start length (chunk :: chunks) =
      Finset.Ico (max start (chunk * chunkLen) - start)
        (min (start + length) (chunk * chunkLen + chunkLen) - start) ∪
        covered start length chunks := by
    ext position
    rw [Finset.mem_union, mem_covered, mem_covered, Finset.mem_Ico, List.mem_cons]
    unfold chunkLen
    constructor
    · rintro ⟨inside, rfl | known⟩
      · exact .inl (by omega)
      · exact .inr ⟨inside, known⟩
    · rintro (here | ⟨inside, known⟩)
      · exact ⟨by omega, .inl (by omega)⟩
      · exact ⟨inside, .inr known⟩
  rw [split, Finset.card_union_of_disjoint, Nat.card_Ico]
  · omega
  · rw [Finset.disjoint_left]
    intro position here known
    rw [mem_covered] at known
    rw [Finset.mem_Ico, chunkLen] at here
    apply fresh
    have same : (start + position) / chunkLen = chunk := by
      rw [chunkLen]
      omega
    rw [← same]
    exact known.2

def HoldsChunk (data : Bytes) (leaf : UInt64 × Chunk) : Prop :=
  (leaf.1.toNat + 1) * chunkLen ≤ data.length ∧
    leaf.2.bytes = slice data (leaf.1.toNat * chunkLen) chunkLen

theorem HoldsChunk.offsets (bounded : data.length < 2 ^ 63) (holds : HoldsChunk data leaf) :
    (leaf.1 * UInt64.ofNat chunkLen).toNat = leaf.1.toNat * chunkLen ∧
      (leaf.1 * UInt64.ofNat chunkLen + UInt64.ofNat chunkLen).toNat =
        leaf.1.toNat * chunkLen + chunkLen := by
  have inside := holds.1
  rw [UInt64.toNat_add, UInt64.toNat_mul, UInt64.toNat_ofNat', chunkLen]
  rw [chunkLen] at inside
  omega

theorem Copied.step {globalEnd : UInt64} {progress : Bytes × Nat}
    (copied : Copied data globalStart.toNat length chunks progress)
    (ends : globalEnd.toNat = globalStart.toNat + length) (bounded : data.length < 2 ^ 63)
    {leaf : UInt64 × Chunk} (holds : HoldsChunk data leaf) (fresh : leaf.1.toNat ∉ chunks) :
    Copied data globalStart.toNat length (leaf.1.toNat :: chunks)
      (copyLeaf globalStart globalEnd progress leaf) := by
  obtain ⟨leafStart, leafEnd⟩ := holds.offsets bounded
  have counts := @card_covered_cons globalStart.toNat length _ _ fresh
  unfold copyLeaf
  simp only [UInt64.lt_iff_toNat_lt, leafStart, leafEnd, ends]
  split
  · rename_i overlap
    generalize isStart : max globalStart.toNat (leaf.1.toNat * chunkLen) = copyStart at counts
    generalize isLen : min (globalStart.toNat + length) (leaf.1.toNat * chunkLen + chunkLen) -
      copyStart = len at counts
    have sourceLength : (slice leaf.2.bytes (copyStart - leaf.1.toNat * chunkLen) len).length =
        len := by
      apply length_slice
      rw [leaf.2.length_bytes]
      omega
    have fits : copyStart - globalStart.toNat + len ≤ progress.1.length := by
      rw [copied.resultLength]
      omega
    rw [← sourceLength] at fits
    refine ⟨?_, ?_, ?_⟩
    · rw [length_overwrite fits, copied.resultLength]
    · rw [counts, copied.copied]
      exact Nat.add_comm _ _
    · intro position isCovered
      rw [getElem?_overwrite fits, sourceLength]
      rw [mem_covered, List.mem_cons] at isCovered
      split
      · rename_i within
        rw [holds.2, slice_slice _ _ _ _ _ (by omega), slice,
          List.getElem?_take_of_lt (by omega), List.getElem?_drop]
        refine congrArg (data[·]?) ?_
        omega
      · rename_i outside
        apply copied.bytes
        rw [mem_covered]
        refine ⟨isCovered.1, isCovered.2.resolve_left ?_⟩
        intro here
        rw [chunkLen] at here isStart isLen
        omega
  · rename_i apart
    have none : min (globalStart.toNat + length) (leaf.1.toNat * chunkLen + chunkLen) -
        max globalStart.toNat (leaf.1.toNat * chunkLen) = 0 := by omega
    rw [none, Nat.zero_add] at counts
    refine ⟨copied.resultLength, by rw [counts]; exact copied.copied, ?_⟩
    intro position isCovered
    apply copied.bytes
    rw [mem_covered, List.mem_cons] at isCovered
    rw [mem_covered]
    refine ⟨isCovered.1, isCovered.2.resolve_left ?_⟩
    intro here
    rw [chunkLen] at here apart
    omega

theorem Copied.foldl {leaves : List (UInt64 × Chunk)}
    (copied : Copied data globalStart.toNat length chunks progress)
    (ends : globalEnd.toNat = globalStart.toNat + length) (bounded : data.length < 2 ^ 63)
    (holds : ∀ leaf ∈ leaves, HoldsChunk data leaf) (distinct : (leaves.map Prod.fst).Nodup)
    (fresh : ∀ leaf ∈ leaves, leaf.1.toNat ∉ chunks) :
    ∃ chunks, Copied data globalStart.toNat length chunks
      (leaves.foldl (copyLeaf globalStart globalEnd) progress) := by
  induction leaves generalizing chunks progress with
  | nil => exact ⟨chunks, copied⟩
  | cons leaf leaves ih =>
    rw [List.map_cons, List.nodup_cons] at distinct
    apply ih (copied.step ends bounded (holds _ (.head _)) (fresh _ (.head _)))
    · exact fun other inside => holds other (.tail _ inside)
    · exact distinct.2
    · intro other inside known
      rcases List.mem_cons.mp known with same | known
      · apply distinct.1
        rw [← UInt64.toNat_inj.mp same]
        exact List.mem_map_of_mem inside
      · exact fresh other (.tail _ inside) known

theorem foldl_copyLeaf_of_far (far : 2 ^ 63 ≤ globalStart.toNat)
    (bounded : data.length < 2 ^ 63) {leaves : List (UInt64 × Chunk)}
    (holds : ∀ leaf ∈ leaves, HoldsChunk data leaf) (progress : Bytes × Nat) :
    leaves.foldl (copyLeaf globalStart globalEnd) progress = progress := by
  induction leaves generalizing progress with
  | nil => rfl
  | cons leaf leaves ih =>
    have inside := (holds leaf (.head _)).1
    have leafEnd := ((holds leaf (.head _)).offsets bounded).2
    have skipped : copyLeaf globalStart globalEnd progress leaf = progress := by
      unfold copyLeaf
      rw [if_neg]
      rintro ⟨_, before⟩
      rw [UInt64.lt_iff_toNat_lt, leafEnd] at before
      rw [Nat.add_mul, Nat.one_mul] at inside
      omega
    rw [List.foldl_cons, skipped]
    exact ih (fun other inside =>
      holds other (.tail _ inside)) progress

end Copy

theorem MerkleProof.extractBytes_eq_slice {proof : MerkleProof Cv} (bounded : data.length < 2 ^ 63)
    (holds : ∀ leaf ∈ proof.leaves, HoldsChunk data leaf)
    (distinct : (proof.leaves.map Prod.fst).Nodup)
    (extracted : proof.extractBytes globalStart length = .ok (.ok result)) :
    result = slice data globalStart.toNat length.toNat := by
  unfold extractBytes at extracted
  split at extracted
  · cases extracted
  · rename_i allocated
    split at extracted
    · rename_i all
      cases extracted
      unfold copyLeaves at all ⊢
      by_cases far : 2 ^ 63 ≤ globalStart.toNat
      · rw [foldl_copyLeaf_of_far far bounded holds] at all ⊢
        rw [← all]
        rfl
      · have ends : (globalStart + length).toNat = globalStart.toNat + length.toNat := by
          rw [UInt64.toNat_add]
          omega
        obtain ⟨chunks, copied⟩ := (copied_nil data globalStart.toNat
          length.toNat).foldl ends bounded holds distinct (fun _ _ => List.not_mem_nil)
        have everything : covered globalStart.toNat length.toNat chunks =
            Finset.range length.toNat := by
          apply Finset.eq_of_subset_of_card_le (Finset.filter_subset _ _)
          rw [Finset.card_range]
          exact (copied.copied.symm.trans all).ge
        apply List.ext_getElem?
        intro position
        rw [slice]
        by_cases inside : position < length.toNat
        · rw [copied.bytes position (everything ▸ Finset.mem_range.mpr inside),
            List.getElem?_take_of_lt inside, List.getElem?_drop]
        · rw [List.getElem?_eq_none (by rw [copied.resultLength]; omega),
            List.getElem?_eq_none (by rw [List.length_take]; omega)]
    · cases extracted

end ModelOS.PearlBlake3
