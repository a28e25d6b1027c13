import ModelOS.PearlBlake3.Merkle

namespace ModelOS.PearlBlake3

open Data

/-! A relation between the values at one level that survives hashing relates the results
of two runs. -/

theorem rel_bind (related : Option.Rel rel first second)
    (proceed : ∀ a b, rel a b → Option.Rel after (firstNext a) (secondNext b)) :
    Option.Rel after (first >>= firstNext) (second >>= secondNext) := by
  cases related with
  | none => exact .none
  | some related => exact proceed _ _ related

structure LevelRelation {α β : Type} (source : Blake3Hasher α) (target : Blake3Hasher β) where
  rel : (levelLen index : Nat) → α → β → Prop
  siblingRel : α → β → Prop
  rootRel : α → β → Prop
  sibling : ∀ {levelLen index : Nat} {a : α} {b : β}, siblingRel a b → rel levelLen index a b
  promote : ∀ {levelLen index : Nat} {a : α} {b : β}, 2 < levelLen →
    rel levelLen (2 * index) a b → rel ((levelLen + 1) / 2) index a b
  parent : ∀ {levelLen index : Nat} {a c : α} {b d : β}, 2 < levelLen →
    rel levelLen (2 * index) a b → rel levelLen (2 * index + 1) c d →
    rel ((levelLen + 1) / 2) index (source.parentCv a c) (target.parentCv b d)
  single : ∀ {a : α} {b : β}, rel 1 0 a b → rootRel a b
  root : ∀ {levelLen : Nat} {a c : α} {b d : β}, levelLen ≤ 2 →
    rel levelLen 0 a b → rel levelLen 1 c d → rootRel (source.rootCv a c) (target.rootCv b d)

namespace LevelRelation

variable {α β : Type} {source : Blake3Hasher α} {target : Blake3Hasher β}
  (relation : LevelRelation source target) {levelLen : Nat}

def Maps (levelLen : Nat) (first : BTreeMap α) (second : BTreeMap β) : Prop :=
  ∀ index, Option.Rel (relation.rel levelLen index) first[index]? second[index]?

def Siblings : List α → List β → Prop :=
  List.Forall₂ relation.siblingRel

theorem presence_eq_of_rel {rel : γ → δ → Prop}
    {first : Option γ} {second : Option δ} (related : Option.Rel rel first second) :
    first.map (fun _ => ()) = second.map fun _ => () := by
  cases related <;> rfl

variable {first : BTreeMap α} {second : BTreeMap β} {siblings : List α} {siblings' : List β}

theorem mem_iff (maps : relation.Maps levelLen first second) (index : Nat) :
    index ∈ first ↔ index ∈ second := by
  have presence := congrArg Option.isSome (presence_eq_of_rel (maps index))
  rw [Option.isSome_map, Option.isSome_map] at presence
  rw [Std.ExtTreeMap.mem_iff_isSome_getElem?, Std.ExtTreeMap.mem_iff_isSome_getElem?, presence]

/-- The results of one step: what comes next, and the siblings left over. -/
def Steps {γ δ : Type} (next : γ → δ → Prop) : Option (γ × List α) → Option (δ × List β) → Prop :=
  Option.Rel fun first second =>
    next first.1 second.1 ∧ relation.Siblings first.2 second.2

theorem Steps.mono {next after : γ → δ → Prop}
    {first : Option (γ × List α)} {second : Option (δ × List β)}
    (steps : relation.Steps next first second) (weaker : ∀ a b, next a b → after a b) :
    relation.Steps after first second := by
  cases steps with
  | none => exact .none
  | some step => exact .some ⟨weaker _ _ step.1, step.2⟩

theorem steps_nextSibling (related : relation.Siblings siblings siblings') :
    relation.Steps relation.siblingRel (nextSibling siblings) (nextSibling siblings') := by
  cases related with
  | nil => exact .none
  | cons head tail => exact .some ⟨head, tail⟩

theorem steps_combineEntry (large : 2 < levelLen) (maps : relation.Maps levelLen first second)
    (values : relation.rel levelLen index a b)
    (related : relation.Siblings siblings siblings') : relation.Steps
      (Option.Rel (relation.rel ((levelLen + 1) / 2) (index / 2)))
      (combineEntry source first levelLen index a siblings)
      (combineEntry target second levelLen index b siblings') := by
  unfold combineEntry
  by_cases even : index % 2 = 0
  · have position : 2 * (index / 2) = index := by omega
    have left : relation.rel levelLen (2 * (index / 2)) a b := by
      rwa [position]
    rw [if_pos even, if_pos even]
    have neighbour := maps (2 * (index / 2) + 1)
    rw [position] at neighbour
    generalize first[index + 1]? = here at neighbour ⊢
    generalize second[index + 1]? = there at neighbour ⊢
    cases neighbour with
    | none =>
      by_cases inside : index + 1 < levelLen
      · simp only [if_pos inside]
        apply rel_bind (relation.steps_nextSibling related)
        rintro ⟨right, rest⟩ ⟨right', rest'⟩ ⟨rightRel, restRel⟩
        exact .some ⟨.some (relation.parent large left (relation.sibling rightRel)), restRel⟩
      · simp only [if_neg inside]
        exact .some ⟨.some (relation.promote large left), related⟩
    | some rightRel =>
      rw [← position] at rightRel
      exact .some ⟨.some (relation.parent large left rightRel), related⟩
  · have position : 2 * (index / 2) + 1 = index := by omega
    have right : relation.rel levelLen (2 * (index / 2) + 1) a b := by
      rwa [position]
    have present := relation.mem_iff maps (index - 1)
    rw [if_neg even, if_neg even]
    by_cases paired : index - 1 ∈ first
    · rw [if_pos paired, if_pos (present.mp paired)]
      exact .some ⟨.none, related⟩
    · rw [if_neg paired, if_neg (fun inSecond => paired (present.mpr inSecond))]
      apply rel_bind (relation.steps_nextSibling related)
      rintro ⟨left, rest⟩ ⟨left', rest'⟩ ⟨leftRel, restRel⟩
      exact .some ⟨.some (relation.parent large (relation.sibling leftRel) right), restRel⟩

theorem maps_insertAbove (maps : relation.Maps levelLen first second)
    (values : Option.Rel (relation.rel levelLen (index / 2)) a b) :
    relation.Maps levelLen (insertAbove first index a) (insertAbove second index b) := by
  cases values with
  | none => exact maps
  | some value =>
    intro other
    simp only [insertAbove, Std.ExtTreeMap.getElem?_insert]
    split
    · rename_i same
      rw [← Std.LawfulEqCmp.eq_of_compare same]
      exact .some value
    · exact maps other

def Entries (levelLen : Nat) : List (Nat × α) → List (Nat × β) → Prop :=
  List.Forall₂ fun first second =>
    first.1 = second.1 ∧ relation.rel levelLen first.1 first.2 second.2

theorem steps_combineEntries (large : 2 < levelLen) (maps : relation.Maps levelLen first second)
    (related : relation.Entries levelLen entries entries')
    (nextMaps : relation.Maps ((levelLen + 1) / 2) next next')
    (siblingsRel : relation.Siblings siblings siblings') :
    relation.Steps (relation.Maps ((levelLen + 1) / 2))
      (combineEntries source first levelLen entries next siblings)
      (combineEntries target second levelLen entries' next' siblings') := by
  induction related generalizing next next' siblings siblings' with
  | nil => exact .some ⟨nextMaps, siblingsRel⟩
  | @cons entry entry' entries entries' head tail ih =>
    obtain ⟨index, cv⟩ := entry
    obtain ⟨index', cv'⟩ := entry'
    obtain ⟨rfl, values⟩ := head
    apply rel_bind (relation.steps_combineEntry large maps values siblingsRel)
    rintro ⟨value, rest⟩ ⟨value', rest'⟩ ⟨valueRel, restRel⟩
    exact ih (relation.maps_insertAbove nextMaps valueRel) restRel

theorem forall₂_of_map_fst_eq {rel : Nat × γ → Nat × δ → Prop}
    {first : List (Nat × γ)} {second : List (Nat × δ)}
    (keys : first.map Prod.fst = second.map Prod.fst)
    (related : ∀ a ∈ first, ∀ b ∈ second, a.1 = b.1 → rel a b) : List.Forall₂ rel first second := by
  induction first generalizing second with
  | nil =>
    cases second with
    | nil => exact .nil
    | cons head tail => cases keys
  | cons head tail ih =>
    cases second with
    | nil => cases keys
    | cons head' tail' =>
      simp only [List.map_cons, List.cons.injEq] at keys
      refine .cons (related _ (.head _) _ (.head _) keys.1) ?_
      apply ih keys.2
      intro a inFirst b inSecond
      exact related a (.tail _ inFirst) b (.tail _ inSecond)

theorem entries_toList (maps : relation.Maps levelLen first second) :
    relation.Entries levelLen first.toList second.toList := by
  apply forall₂_of_map_fst_eq
  · have shapes : first.map (fun _ _ => ()) = second.map fun _ _ => () := by
      apply Std.ExtTreeMap.ext_getElem?
      intro index
      rw [Std.ExtTreeMap.getElem?_map, Std.ExtTreeMap.getElem?_map]
      exact presence_eq_of_rel (maps index)
    have lists := congrArg Std.ExtTreeMap.toList shapes
    rw [Std.ExtTreeMap.toList_map, Std.ExtTreeMap.toList_map] at lists
    have keys := congrArg (List.map Prod.fst) lists
    simpa [List.map_map, Function.comp_def] using keys
  · rintro ⟨index, a⟩ inFirst ⟨index', b⟩ inSecond same
    cases same
    rw [Std.ExtTreeMap.mem_toList_iff_getElem?_eq_some] at inFirst inSecond
    have values := maps index
    rw [inFirst, inSecond] at values
    cases values with
    | some value => exact ⟨rfl, value⟩

theorem maps_empty (levelLen : Nat) : relation.Maps levelLen ∅ ∅ := by
  intro index
  rw [Std.ExtTreeMap.getElem?_empty, Std.ExtTreeMap.getElem?_empty]
  exact .none

theorem steps_climb (maps : relation.Maps levelLen first second)
    (related : relation.Siblings siblings siblings') :
    ∃ lastLen ≤ 2, relation.Steps (relation.Maps lastLen) (climb source first levelLen siblings)
      (climb target second levelLen siblings') := by
  induction levelLen using Nat.strong_induction_on generalizing first second siblings siblings' with
  | _ levelLen ih =>
    unfold climb
    by_cases large : 2 < levelLen
    · rw [if_pos large, if_pos large]
      have level := relation.steps_combineEntries large maps
        (relation.entries_toList maps) (relation.maps_empty _) related
      generalize combineEntries source first levelLen first.toList ∅ siblings = here at level ⊢
      generalize combineEntries target second levelLen second.toList ∅ siblings' = there at level ⊢
      cases level with
      | none => exact ⟨2, Nat.le_refl 2, .none⟩
      | some level => exact ih ((levelLen + 1) / 2) (by omega) level.1 level.2
    · rw [if_neg large, if_neg large]
      exact ⟨levelLen, Nat.not_lt.mp large, .some ⟨maps, related⟩⟩

theorem steps_takeNode (maps : relation.Maps levelLen first second) (index : Nat)
    (related : relation.Siblings siblings siblings') :
    relation.Steps (relation.rel levelLen index) (takeNode first index siblings)
      (takeNode second index siblings') := by
  have values := maps index
  unfold takeNode
  generalize first[index]? = here at values ⊢
  generalize second[index]? = there at values ⊢
  cases values with
  | none =>
    exact Steps.mono relation (relation.steps_nextSibling related) fun _ _ => relation.sibling
  | some value => exact .some ⟨value, related⟩

theorem rel_mergeRoot (short : levelLen ≤ 2) (maps : relation.Maps levelLen first second)
    (related : relation.Siblings siblings siblings') :
    Option.Rel relation.rootRel (mergeRoot source first siblings)
      (mergeRoot target second siblings') := by
  apply rel_bind (relation.steps_takeNode maps 0 related)
  rintro ⟨left, rest⟩ ⟨left', rest'⟩ ⟨leftRel, related⟩
  apply rel_bind (relation.steps_takeNode maps 1 related)
  rintro ⟨right, rest⟩ ⟨right', rest'⟩ ⟨rightRel, related⟩
  cases related with
  | nil => exact .some (relation.root short leftRel rightRel)
  | cons head tail => exact .none

theorem isEmpty_eq (related : relation.Siblings siblings siblings') :
    siblings.isEmpty = siblings'.isEmpty := by
  cases related <;> rfl

/-- The related results of two openings with the same indices. -/
inductive Results : Except Panic (Option α) → Except Panic (Option β) → Prop
  | error (panic : Panic) : Results (.error panic) (.error panic)
  | ok {first : Option α} {second : Option β} :
      Option.Rel relation.rootRel first second → Results (.ok first) (.ok second)

theorem results_computeRoot {first : MerkleProof α} {second : MerkleProof β}
    (indices : first.leafIndices = second.leafIndices)
    (leaves : first.totalLeaves = second.totalLeaves)
    (maps : relation.Maps first.totalLeaves.toNat (first.leafMap source) (second.leafMap target))
    (related : relation.Siblings first.siblings second.siblings) :
    relation.Results (first.computeRoot source) (second.computeRoot target) := by
  have isEmpty := relation.isEmpty_eq related
  unfold MerkleProof.computeRoot
  rw [← indices, ← leaves, ← isEmpty]
  by_cases noIndices : first.leafIndices = []
  · rw [if_pos noIndices, if_pos noIndices]
    exact .ok .none
  · rw [if_neg noIndices, if_neg noIndices]
    by_cases one : first.totalLeaves = 1
    · rw [if_pos one, if_pos one]
      by_cases noSiblings : first.siblings.isEmpty
      · rw [if_pos noSiblings, if_pos noSiblings]
        rw [one] at maps
        have value := maps 0
        generalize (first.leafMap source)[0]? = here at value ⊢
        generalize (second.leafMap target)[0]? = there at value ⊢
        cases value with
        | none => exact .error _
        | some value => exact .ok (.some (relation.single value))
      · rw [if_neg noSiblings, if_neg noSiblings]
        exact .ok .none
    · rw [if_neg one, if_neg one]
      obtain ⟨lastLen, short, steps⟩ := relation.steps_climb maps related
      refine .ok (rel_bind steps ?_)
      rintro ⟨last, rest⟩ ⟨last', rest'⟩ ⟨lastMaps, related⟩
      exact relation.rel_mergeRoot short lastMaps related

end LevelRelation

namespace MerkleProof

variable {Cv : Type}

def lastLeaf (proof : MerkleProof Cv) (index : Nat) : Option (UInt64 × Chunk) :=
  proof.leaves.reverse.find? (·.1.toNat = index)

theorem zip_leafHashes (hasher : Blake3Hasher Cv) (indices : List UInt64) (data : List Chunk) :
    (indices.map UInt64.toNat).zip (List.zipWith
        (fun index data => hasher.chunkCv data.bytes index) indices data) =
      (indices.zip data).map fun leaf => (leaf.1.toNat, hasher.chunkCv leaf.2.bytes leaf.1) := by
  induction indices generalizing data with
  | nil => rfl
  | cons index indices ih =>
    cases data with
    | nil => rfl
    | cons chunk data => simp [ih]

theorem findSome?_eq_map_find? (value : UInt64 × Chunk → Cv) (index : Nat)
    (leaves : List (UInt64 × Chunk)) : leaves.findSome? (fun leaf =>
        if compare leaf.1.toNat index = .eq then some (value leaf) else none) =
      (leaves.find? (·.1.toNat = index)).map value := by
  induction leaves with
  | nil => rfl
  | cons leaf leaves ih =>
    by_cases same : leaf.1.toNat = index
    · simp [same]
    · have other : ¬ compare leaf.1.toNat index = .eq := by simpa using same
      rw [List.findSome?_cons, if_neg other, List.find?_cons_of_neg (by simpa using same)]
      exact ih

theorem getElem?_leafMap (hasher : Blake3Hasher Cv) (proof : MerkleProof Cv) (index : Nat) :
    (proof.leafMap hasher)[index]? = (proof.lastLeaf index).map fun leaf =>
      hasher.chunkCv leaf.2.bytes leaf.1 := by
  rw [leafMap, leafHashes, zip_leafHashes, Std.ExtTreeMap.ofList_eq_insertMany_empty,
    Std.ExtTreeMap.getElem?_insertMany_list, Std.ExtTreeMap.getElem?_empty,
    Option.or_none, List.findSomeRev?_eq_findSome?_reverse, ← List.map_reverse, List.findSome?_map]
  exact findSome?_eq_map_find? _ index _

theorem lastLeaf_eq_of_mem {proof : MerkleProof Cv}
    (distinct : (proof.leaves.map Prod.fst).Nodup) (member : leaf ∈ proof.leaves) :
    proof.lastLeaf leaf.1.toNat = some leaf := by
  obtain ⟨before, after, split⟩ := List.append_of_mem member
  have later : ∀ other ∈ after.reverse, ¬ other.1.toNat = leaf.1.toNat := by
    intro other inAfter same
    rw [split, List.map_append, List.map_cons, List.nodup_append, List.nodup_cons] at distinct
    apply distinct.2.1.1
    rw [← UInt64.toNat_inj.mp same]
    exact List.mem_map_of_mem (List.mem_reverse.mp inAfter)
  rw [lastLeaf, split, List.reverse_append, List.reverse_cons, List.append_assoc,
    List.find?_append, List.find?_eq_none.mpr (by simpa using later)]
  simp

end MerkleProof

structure Blake3Hasher.Hom {α β : Type} (source : Blake3Hasher α)
    (target : Blake3Hasher β) (map : α → β) : Prop where
  hash : ∀ data, map (source.hash data) = target.hash data
  chunkCv : ∀ data index, map (source.chunkCv data index) = target.chunkCv data index
  parentCv : ∀ left right, map (source.parentCv left right) = target.parentCv (map left) (map right)
  rootCv : ∀ left right, map (source.rootCv left right) = target.rootCv (map left) (map right)

section Hom

variable {α β : Type} {source : Blake3Hasher α} {target : Blake3Hasher β}
  {map : α → β} (hom : source.Hom target map)

def LevelRelation.ofHom : LevelRelation source target where
  rel := fun _ _ a b => map a = b
  siblingRel := fun a b => map a = b
  rootRel := fun a b => map a = b
  sibling := fun equal => equal
  promote := fun _ equal => equal
  parent := by
    rintro levelLen index a c b d _ rfl rfl
    exact hom.parentCv a c
  single := fun equal => equal
  root := by
    rintro levelLen a c b d _ rfl rfl
    exact hom.rootCv a c

def MerkleProof.mapCv (map : α → β) (proof : MerkleProof α) : MerkleProof β where
  leafData := proof.leafData
  leafIndices := proof.leafIndices
  totalLeaves := proof.totalLeaves
  root := map proof.root
  siblings := proof.siblings.map map

theorem LevelRelation.Results.eq_map (related : (LevelRelation.ofHom hom).Results first second) :
    second = first.map (Option.map map) := by
  cases related with
  | error panic => rfl
  | ok values =>
    cases values with
    | none => rfl
    | @some a b value =>
      have equal : map a = b := value
      subst equal
      rfl

include hom in
theorem MerkleProof.computeRoot_mapCv (proof : MerkleProof α) :
    (proof.mapCv map).computeRoot target = (proof.computeRoot source).map (Option.map map) := by
  have indices : proof.leafIndices = (proof.mapCv map).leafIndices := rfl
  have leaves : proof.totalLeaves = (proof.mapCv map).totalLeaves := rfl
  apply LevelRelation.Results.eq_map hom
  apply LevelRelation.results_computeRoot _ indices leaves
  · intro index
    rw [getElem?_leafMap, getElem?_leafMap]
    change Option.Rel _ _ ((proof.lastLeaf index).map _)
    cases proof.lastLeaf index with
    | none => exact .none
    | some leaf => exact .some (hom.chunkCv _ _)
  · change List.Forall₂ _ _ (proof.siblings.map map)
    rw [List.forall₂_map_right_iff]
    exact List.forall₂_same.mpr fun _ _ => rfl

end Hom

/-! Leaf positions whose path ends at one of the last two nodes. What stands beyond them
never reaches the root. -/

def span (levelLen : Nat) : Nat :=
  if 2 < levelLen then 2 * span ((levelLen + 1) / 2) else 2
termination_by levelLen

theorem span_of_large (large : 2 < levelLen) :
    span levelLen = 2 * span ((levelLen + 1) / 2) := by
  rw [span, if_pos large]

theorem span_of_small (small : levelLen ≤ 2) : span levelLen = 2 := by
  rw [span, if_neg (Nat.not_lt.mpr small)]

theorem span_eq (levelLen : Nat) : span levelLen = 2 ^ max 1 (Nat.clog 2 levelLen) := by
  induction levelLen using Nat.strong_induction_on with
  | _ levelLen ih =>
    by_cases large : 2 < levelLen
    · have above : 1 < (levelLen + 1) / 2 := by omega
      have halved : Nat.clog 2 levelLen = Nat.clog 2 ((levelLen + 1) / 2) + 1 :=
        Nat.clog_of_two_le (Nat.le_refl 2) (by omega)
      have positive : 1 ≤ Nat.clog 2 ((levelLen + 1) / 2) := Nat.clog_pos (Nat.le_refl 2) above
      rw [span_of_large large, ih _ (by omega), halved,
        max_eq_right positive, max_eq_right (by omega), pow_succ, mul_comm]
    · have short : Nat.clog 2 levelLen ≤ 1 := by
        rw [Nat.clog_le_iff_le_pow Nat.one_lt_two]
        omega
      rw [span_of_small (Nat.not_lt.mp large), max_eq_left short, pow_one]

variable {Cv : Type}

def LevelRelation.below (hasher : Blake3Hasher Cv) : LevelRelation hasher hasher where
  rel := fun levelLen index a b => index < span levelLen → a = b
  siblingRel := Eq
  rootRel := Eq
  sibling := fun equal _ => equal
  promote := by
    intro levelLen index a b large equal inside
    exact equal (by rw [span_of_large large]; omega)
  parent := by
    intro levelLen index a c b d large left right inside
    rw [left (by rw [span_of_large large]; omega), right (by rw [span_of_large large]; omega)]
  single := by
    intro a b equal
    exact equal (by rw [span_of_small (by omega)]; omega)
  root := by
    intro levelLen a c b d short left right
    rw [left (by rw [span_of_small short]; omega), right (by rw [span_of_small short]; omega)]

theorem LevelRelation.Results.eq
    (related : (LevelRelation.below hasher).Results first second) : first = second := by
  cases related with
  | error panic => rfl
  | ok values =>
    cases values with
    | none => rfl
    | @some a b value =>
      have equal : a = b := value
      rw [equal]

theorem MerkleProof.computeRoot_congr {first second : MerkleProof Cv}
    (indices : first.leafIndices = second.leafIndices)
    (leaves : first.totalLeaves = second.totalLeaves) (siblings : first.siblings = second.siblings)
    (agree : ∀ index, Option.Rel
      (fun leaf other => index < span first.totalLeaves.toNat → leaf = other)
      (first.lastLeaf index) (second.lastLeaf index)) :
    first.computeRoot hasher = second.computeRoot hasher := by
  apply LevelRelation.Results.eq
  apply LevelRelation.results_computeRoot _ indices leaves
  · intro index
    rw [getElem?_leafMap, getElem?_leafMap]
    have leaf := agree index
    generalize first.lastLeaf index = here at leaf ⊢
    generalize second.lastLeaf index = there at leaf ⊢
    cases leaf with
    | none => exact .none
    | some equal =>
      refine .some fun inside => ?_
      rw [equal inside]
  · rw [siblings]
    exact List.forall₂_same.mpr fun _ _ => rfl

end ModelOS.PearlBlake3
