import Mathlib

namespace ModelOS.Data.MerkleRows

variable {Digest : Type}

theorem map_eq_of_map_eq {weaker : α → β} {stronger : α → γ} {first second : List α}
    (determines : ∀ value ∈ first, ∀ other ∈ second,
      stronger value = stronger other → weaker value = weaker other)
    (same : first.map stronger = second.map stronger) : first.map weaker = second.map weaker := by
  induction first generalizing second with
  | nil => rw [List.map_eq_nil_iff.mp same.symm]
  | cons value rest ih =>
    match second, same with
    | other :: others, same =>
      obtain ⟨heads, tails⟩ := List.cons.inj same
      rw [List.map_cons, List.map_cons, determines value (.head _) other (.head _) heads,
        ih (fun value member other member' =>
          determines value (.tail _ member) other (.tail _ member')) tails]

/-! The last digest of an odd row is combined with itself, so that a row and the same
row with its last digest repeated have one row above them. -/

def pairs : List Digest → List (Digest × Digest)
  | [] => []
  | [last] => [(last, last)]
  | left :: right :: rest => (left, right) :: pairs rest

@[simp] theorem length_pairs (row : List Digest) : (pairs row).length = (row.length + 1) / 2 := by
  fun_induction pairs row with
  | case1 => simp
  | case2 last => simp
  | case3 left right rest ih =>
    simp only [List.length_cons, ih]
    omega

theorem map_fst_pairs_sublist (row : List Digest) : ((pairs row).map Prod.fst).Sublist row := by
  fun_induction pairs row with
  | case1 => exact .slnil
  | case2 last => exact .refl _
  | case3 left right rest ih => exact (ih.cons right).cons_cons left

theorem nodup_pairs (nodup : row.Nodup) : (pairs row).Nodup :=
  .of_map Prod.fst (nodup.sublist (map_fst_pairs_sublist row))

theorem pairs_injective_of_length
    (length : first.length = second.length) (same : pairs first = pairs second) :
    first = second := by
  fun_induction pairs first generalizing second with
  | case1 => exact (List.length_eq_zero_iff.mp length.symm).symm
  | case2 last =>
    obtain ⟨other, rfl⟩ := List.length_eq_one_iff.mp length.symm
    have pair := (List.cons.inj same).1
    rw [(Prod.mk.inj pair).1]
  | case3 left right rest ih =>
    match second, length with
    | otherLeft :: otherRight :: others, length =>
      obtain ⟨pair, above⟩ := List.cons.inj same
      obtain ⟨rfl, rfl⟩ := Prod.mk.inj pair
      simp only [List.length_cons, Nat.add_right_cancel_iff] at length
      rw [ih length above]

/-- Without repetitions the padding of an odd row cannot be taken for a digest
of the row. -/
theorem pairs_injective_of_nodup
    (firstNodup : first.Nodup) (secondNodup : second.Nodup)
    (same : pairs first = pairs second) : first = second := by
  fun_induction pairs first generalizing second with
  | case1 =>
    have empty := congrArg List.length same
    rw [length_pairs, List.length_nil] at empty
    exact (List.length_eq_zero_iff.mp (by omega)).symm
  | case2 last =>
    match second with
    | [other] =>
      have pair := (List.cons.inj same).1
      rw [(Prod.mk.inj pair).1]
    | left :: right :: rest =>
      have pair := (List.cons.inj same).1
      obtain ⟨rfl, rfl⟩ := Prod.mk.inj pair
      simp at secondNodup
  | case3 left right rest ih =>
    match second with
    | [last] =>
      have pair := (List.cons.inj same).1
      obtain ⟨rfl, rfl⟩ := Prod.mk.inj pair
      simp at firstNodup
    | otherLeft :: otherRight :: others =>
      obtain ⟨pair, above⟩ := List.cons.inj same
      obtain ⟨rfl, rfl⟩ := Prod.mk.inj pair
      rw [ih (firstNodup.of_cons.of_cons) secondNodup.of_cons.of_cons above]

section Climb

variable (combine : Digest → Digest → Digest)

def rowAbove (row : List Digest) : List Digest :=
  (pairs row).map fun pair => combine pair.1 pair.2

def climb : Nat → List Digest → List Digest
  | 0, row => row
  | levels + 1, row => climb levels (rowAbove combine row)

def climbedPairs : Nat → List Digest → List (Digest × Digest)
  | 0, _ => []
  | levels + 1, row =>
    pairs row ++ climbedPairs levels (rowAbove combine row)

def height (row : List Digest) : Nat :=
  Nat.clog 2 row.length

def root (row : List Digest) : Option Digest :=
  (climb combine (height row) row).head?

def rootPairs (row : List Digest) : List (Digest × Digest) :=
  climbedPairs combine (height row) row

variable {combine}

@[simp] theorem length_rowAbove (row : List Digest) :
    (rowAbove combine row).length = (row.length + 1) / 2 := by
  rw [rowAbove, List.length_map, length_pairs]

theorem climb_add (lower upper : Nat) (row : List Digest) : climb combine (lower + upper) row =
      climb combine upper (climb combine lower row) := by
  induction lower generalizing row with
  | zero => rw [Nat.zero_add, climb]
  | succ lower ih =>
    rw [Nat.succ_add, climb, ih, climb]

theorem climbedPairs_add (lower upper : Nat) (row : List Digest) :
    climbedPairs combine (lower + upper) row = climbedPairs combine lower row ++
        climbedPairs combine upper (climb combine lower row) := by
  induction lower generalizing row with
  | zero => rw [Nat.zero_add, climbedPairs, climb, List.nil_append]
  | succ lower ih =>
    rw [Nat.succ_add, climbedPairs, ih, climbedPairs, climb, List.append_assoc]

/-- No two different pairs of the list combine to one digest. -/
def Separates (combine : Digest → Digest → Digest) (combined : List (Digest × Digest)) : Prop :=
  Set.InjOn (fun pair => combine pair.1 pair.2) {pair | pair ∈ combined}

theorem Separates.mono
    (separates : Separates combine larger) (subset : smaller ⊆ larger) :
    Separates combine smaller :=
  Set.InjOn.mono (fun _ member => subset member) separates

theorem Separates.eq_of_map
    (separates : Separates combine (first ++ second))
    (same : (first.map fun pair => combine pair.1 pair.2) =
      second.map fun pair => combine pair.1 pair.2) : first = second := by
  have agree : first.map id = second.map id := by
    apply map_eq_of_map_eq _ same
    intro pair member other member' combined
    exact separates (List.mem_append_left _ member) (List.mem_append_right _ member') combined
  rwa [List.map_id, List.map_id] at agree

variable {row first second roots : List Digest} {levels : Nat}

theorem nodup_rowAbove (nodup : row.Nodup) (separates : Separates combine (pairs row)) :
    (rowAbove combine row).Nodup :=
  (nodup_pairs nodup).map_on separates

theorem nodup_climb (nodup : row.Nodup)
    (separates : Separates combine (climbedPairs combine levels row)) :
    (climb combine levels row).Nodup := by
  induction levels generalizing row with
  | zero => exact nodup
  | succ levels ih =>
    exact ih (nodup_rowAbove nodup (separates.mono (List.subset_append_left _ _)))
      (separates.mono (List.subset_append_right _ _))

/-- Rows that agree in every row above them agree, if they stand in a relation
that the rows above them inherit and under which the pairs of a row determine
it. -/
theorem eq_of_climb_eq {Related : List Digest → List Digest → Prop}
    (determined : ∀ {first second}, Related first second →
      pairs first = pairs second → first = second)
    (inherited : ∀ {first second}, Related first second →
      Separates combine (pairs first) → Separates combine (pairs second) →
        Related (rowAbove combine first) (rowAbove combine second)) (related : Related first second)
    (separates : Separates combine (climbedPairs combine levels first ++
      climbedPairs combine levels second))
    (same : climb combine levels first = climb combine levels second) : first = second := by
  induction levels generalizing first second with
  | zero => exact same
  | succ levels ih =>
    rw [climbedPairs, climbedPairs] at separates
    have below : Separates combine (pairs first ++ pairs second) := by
      apply separates.mono
      intro pair
      simp only [List.mem_append]
      tauto
    have above : rowAbove combine first = rowAbove combine second := by
      apply ih (inherited related (below.mono (List.subset_append_left _ _))
        (below.mono (List.subset_append_right _ _))) (separates.mono ?_) same
      intro pair
      simp only [List.mem_append]
      tauto
    exact determined related (below.eq_of_map above)

theorem eq_of_climb_eq_of_length (length : first.length = second.length)
    (separates : Separates combine (climbedPairs combine levels first ++
      climbedPairs combine levels second))
    (same : climb combine levels first = climb combine levels second) : first = second :=
  @eq_of_climb_eq _ _ _ _ _ (fun first second => first.length = second.length)
    pairs_injective_of_length (fun length _ _ => by rw [length_rowAbove, length_rowAbove, length])
    length separates same

theorem eq_of_climb_eq_of_nodup (firstNodup : first.Nodup) (secondNodup : second.Nodup)
    (separates : Separates combine (climbedPairs combine levels first ++
      climbedPairs combine levels second))
    (same : climb combine levels first = climb combine levels second) : first = second :=
  @eq_of_climb_eq _ _ _ _ _ (fun first second => first.Nodup ∧ second.Nodup)
    (fun nodup => pairs_injective_of_nodup nodup.1 nodup.2) (fun nodup firstPairs secondPairs =>
      ⟨nodup_rowAbove nodup.1 firstPairs, nodup_rowAbove nodup.2 secondPairs⟩)
    ⟨firstNodup, secondNodup⟩ separates same

theorem mem_climb_succ (member : digest ∈ climb combine (levels + 1) row) :
    ∃ pair ∈ climbedPairs combine (levels + 1) row, combine pair.1 pair.2 = digest := by
  rw [climb_add] at member
  obtain ⟨pair, below, rfl⟩ := List.mem_map.mp member
  refine ⟨pair, ?_, rfl⟩
  rw [climbedPairs_add]
  exact List.mem_append_right _ (List.mem_append_left _ below)

theorem eq_of_climb_eq_of_leaves (firstNodup : first.Nodup)
    (secondNodup : second.Nodup) (nonempty : first ≠ [])
    (leaves : ∀ leaf ∈ first, ∀ pair ∈ climbedPairs combine (more + fewer) second,
      combine pair.1 pair.2 ≠ leaf)
    (separates : Separates combine (climbedPairs combine fewer first ++
      climbedPairs combine (more + fewer) second))
    (same : climb combine fewer first = climb combine (more + fewer) second) : first = second := by
  rw [climbedPairs_add] at separates leaves
  rw [climb_add] at same
  have raised : (climb combine more second).Nodup := by
    apply nodup_climb secondNodup (separates.mono _)
    intro pair
    simp only [List.mem_append]
    tauto
  have level : first = climb combine more second := by
    apply eq_of_climb_eq_of_nodup firstNodup raised (separates.mono _) same
    intro pair
    simp only [List.mem_append]
    tauto
  cases more with
  | zero => exact level
  | succ more =>
    obtain ⟨leaf, member⟩ := List.exists_mem_of_ne_nil first nonempty
    obtain ⟨pair, below, combined⟩ := mem_climb_succ (level ▸ member)
    exact absurd combined (leaves leaf member pair (List.mem_append_left _ below))

theorem height_rowAbove (long : 2 ≤ row.length) :
    height row = height (rowAbove combine row) + 1 := by
  rw [height, height, Nat.clog_of_two_le (by decide) long, length_rowAbove]
  rfl

theorem height_eq_zero (short : row.length ≤ 1) : height row = 0 :=
  Nat.clog_of_right_le_one short 2

theorem rowAbove_ne_nil (nonempty : row ≠ []) : rowAbove combine row ≠ [] := by
  have positive := List.length_pos_iff.mpr nonempty
  apply List.ne_nil_of_length_pos
  rw [length_rowAbove]
  omega

theorem root_singleton (digest : Digest) : root combine [digest] = some digest := by
  rw [root, height_eq_zero Nat.le.refl]
  rfl

theorem root_rowAbove (long : 2 ≤ row.length) :
    root combine (rowAbove combine row) = root combine row := by
  rw [root, root, @height_rowAbove _ combine _ long, climb]

theorem row_induction {motive : List Digest → Prop} (single : ∀ digest, motive [digest])
    (above : ∀ row : List Digest, 2 ≤ row.length → motive (rowAbove combine row) → motive row)
    {row : List Digest} (nonempty : row ≠ []) : motive row := by
  match row, nonempty with
  | [digest], _ => exact single digest
  | left :: right :: rest, _ =>
    have shorter : (rowAbove combine (left :: right :: rest)).length <
        (left :: right :: rest).length := by
      simp only [length_rowAbove, List.length_cons]
      omega
    exact above _ (by simp) (row_induction single above (rowAbove_ne_nil (by simp)))
termination_by row.length

theorem climb_height (nonempty : row ≠ []) :
    ∃ digest, climb combine (height row) row = [digest] := by
  refine @row_induction _ combine
    (fun row => ∃ digest, climb combine (height row) row = [digest]) ?_ ?_ _ nonempty
  · intro digest
    rw [height_eq_zero Nat.le.refl]
    exact ⟨digest, rfl⟩
  · intro row long reached
    rw [@height_rowAbove _ combine _ long, climb]
    exact reached

theorem climb_eq_of_root_eq (some₁ : first ≠ []) (some₂ : second ≠ [])
    (same : root combine first = root combine second) : climb combine (height first) first =
      climb combine (height second) second := by
  obtain ⟨digest, reached⟩ := @climb_height _ combine _ some₁
  obtain ⟨other, reached'⟩ := @climb_height _ combine _ some₂
  rw [root, root, reached, reached'] at same
  rw [reached, reached', Option.some.inj same]

theorem eq_of_root_eq (firstNodup : first.Nodup) (secondNodup : second.Nodup)
    (someFirst : first ≠ []) (someSecond : second ≠ []) (leaves : ∀ leaf ∈ first ++ second,
      ∀ pair ∈ rootPairs combine first ++ rootPairs combine second, combine pair.1 pair.2 ≠ leaf)
    (separates : Separates combine (rootPairs combine first ++ rootPairs combine second))
    (same : root combine first = root combine second) : first = second := by
  have top := climb_eq_of_root_eq someFirst someSecond same
  rw [rootPairs, rootPairs] at separates leaves
  rcases Nat.le_total (height first) (height second) with lower | lower
  · obtain ⟨more, heights⟩ := Nat.exists_eq_add_of_le' lower
    rw [heights] at top separates leaves
    refine eq_of_climb_eq_of_leaves firstNodup secondNodup someFirst ?_ separates top
    intro leaf member pair below
    exact leaves leaf (List.mem_append_left _ member) pair (List.mem_append_right _ below)
  · obtain ⟨more, heights⟩ := Nat.exists_eq_add_of_le' lower
    rw [heights] at top separates leaves
    symm
    refine eq_of_climb_eq_of_leaves secondNodup firstNodup someSecond ?_
      (separates.mono ?_) top.symm
    · intro leaf member pair below
      exact leaves leaf (List.mem_append_right _ member) pair (List.mem_append_left _ below)
    · intro pair
      simp only [List.mem_append]
      tauto

theorem eq_of_root_eq_of_length (length : first.length = second.length)
    (separates : Separates combine (rootPairs combine first ++ rootPairs combine second))
    (same : root combine first = root combine second) : first = second := by
  cases first with
  | nil => exact (List.length_eq_zero_iff.mp length.symm).symm
  | cons digest rest =>
    have someSecond : second ≠ [] := List.ne_nil_of_length_pos (length ▸ Nat.succ_pos _)
    have top := climb_eq_of_root_eq (List.cons_ne_nil _ _) someSecond same
    have heights : height second = height (digest :: rest) := congrArg (Nat.clog 2) length.symm
    rw [rootPairs, rootPairs, heights] at separates
    rw [heights] at top
    exact eq_of_climb_eq_of_length length separates top

inductive Peaks (combine : Digest → Digest → Digest) : List Digest → List Digest → Prop
  | nil : Peaks combine [] []
  | even {row roots : List Digest} : row.length % 2 = 0 → row ≠ [] →
      Peaks combine (rowAbove combine row) roots → Peaks combine row roots
  | odd {row roots : List Digest} {last : Digest} : row.length % 2 = 0 →
      Peaks combine (rowAbove combine row) roots → Peaks combine (row ++ [last]) (last :: roots)

theorem pairs_append_of_even (even : row.length % 2 = 0) (rest : List Digest) :
    pairs (row ++ rest) = pairs row ++ pairs rest := by
  fun_induction pairs row with
  | case1 => rfl
  | case2 last => simp at even
  | case3 left right others ih =>
    have shorter : others.length % 2 = 0 := by
      simpa [Nat.add_assoc] using even
    rw [List.cons_append, List.cons_append, pairs, ih shorter, List.cons_append]

theorem rowAbove_append_of_even (even : row.length % 2 = 0) (rest : List Digest) :
    rowAbove combine (row ++ rest) = rowAbove combine row ++ rowAbove combine rest := by
  rw [rowAbove, pairs_append_of_even even, List.map_append]
  rfl

theorem root_repeat_last (even : row.length % 2 = 0) (nonempty : row ≠ []) (last : Digest) :
    root combine (row ++ [last, last]) = root combine (row ++ [last]) := by
  have positive := List.length_pos_iff.mpr nonempty
  rw [← root_rowAbove (by simp), ← @root_rowAbove _ combine (row ++ [last])
    (by simp; omega), rowAbove_append_of_even even, rowAbove_append_of_even even]
  rfl

theorem Peaks.eq_nil (peaks : Peaks combine row roots) (none : roots = []) : row = [] := by
  induction peaks with
  | nil => rfl
  | even even nonempty above ih =>
    exact absurd (ih none) (rowAbove_ne_nil nonempty)
  | odd even above ih => cases none

theorem Peaks.nonempty (peaks : Peaks combine row (last :: roots)) : row ≠ [] := by
  generalize listed : last :: roots = all at peaks
  cases peaks with
  | nil => cases listed
  | even even nonempty above => exact nonempty
  | odd even above => simp

theorem Peaks.root_of_single (peaks : Peaks combine row [digest]) :
    root combine row = some digest := by
  generalize single : [digest] = roots at peaks
  induction peaks with
  | nil => cases single
  | @even row roots even nonempty above ih =>
    have positive := List.length_pos_iff.mpr nonempty
    rw [← ih single, root_rowAbove (by omega)]
  | @odd row roots last even above ih =>
    obtain ⟨rfl, rfl⟩ := List.cons.inj single
    have empty : row = [] := by
      by_contra some
      exact rowAbove_ne_nil some (above.eq_nil rfl)
    rw [empty, List.nil_append, root_singleton]

theorem Peaks.lowest (peaks : Peaks combine row (last :: roots)) :
    ∃ front levels, front.length % 2 = 0 ∧ row.length = 2 ^ levels * (front.length + 1) ∧
      Peaks combine (rowAbove combine front) roots ∧
      root combine (front ++ [last]) = root combine row := by
  generalize listed : last :: roots = all at peaks
  induction peaks with
  | nil => cases listed
  | @even row roots even nonempty above ih =>
    obtain ⟨front, levels, evenFront, length, rest, same⟩ := ih listed
    have positive := List.length_pos_iff.mpr nonempty
    refine ⟨front, levels + 1, evenFront, ?_, rest, ?_⟩
    · rw [length_rowAbove] at length
      rw [Nat.pow_succ']
      grind
    · rw [same, root_rowAbove (by omega)]
  | @odd row roots last' even above ih =>
    obtain ⟨rfl, rfl⟩ := List.cons.inj listed
    exact ⟨row, 0, even, by simp, above, rfl⟩

/-- The parent of two nodes of a linear store, where a node may be missing. -/
def storeParent (combine : Digest → Digest → Digest) : Option Digest → Option Digest →
    Option Digest
  | none, _ => none
  | some left, none => some (combine left left)
  | some left, some right => some (combine left right)

theorem getElem?_rowAbove (row : List Digest) (index : Nat) : (rowAbove combine row)[index]? =
      storeParent combine row[2 * index]? row[2 * index + 1]? := by
  unfold rowAbove
  fun_induction pairs row generalizing index with
  | case1 => rfl
  | case2 last =>
    cases index with
    | zero => rfl
    | succ index => simp [Nat.mul_succ, storeParent]
  | case3 left right rest ih =>
    cases index with
    | zero => rfl
    | succ index => exact ih index

/-- The rows of a tree one after the other, each half as long as the one below it. -/
structure Filled (combine : Digest → Digest → Digest) (size : Nat) (row : List Digest)
    (store : Nat → Option Digest) : Prop where
  leaves : ∀ index < size, store index = row[index]?
  parents : ∀ index, index + 1 < size → store (size + index) =
    storeParent combine (store (2 * index)) (store (2 * index + 1))

theorem Filled.climb {levels upper index : Nat} {store : Nat → Option Digest}
    (filled : Filled combine (2 ^ (levels + upper)) row store) (inside : index < 2 ^ upper) :
    store (2 * 2 ^ (levels + upper) - 2 * 2 ^ upper + index) =
      (climb combine levels row)[index]? := by
  induction levels generalizing upper index with
  | zero =>
    rw [Nat.zero_add, Nat.sub_self, Nat.zero_add]
    exact filled.leaves _ (by rwa [Nat.zero_add])
  | succ levels ih =>
    have size : 2 ^ (levels + 1 + upper) = 2 ^ (levels + (upper + 1)) := by
      congr 1
      omega
    rw [size] at filled ⊢
    have wide : 2 ^ (upper + 1) = 2 * 2 ^ upper := Nat.pow_succ'
    have below : 2 ^ (upper + 1) ≤ 2 ^ (levels + (upper + 1)) :=
      Nat.pow_le_pow_right (by decide) (Nat.le_add_left _ _)
    have left := @ih (upper + 1) (2 * index) filled (by omega)
    have right := @ih (upper + 1) (2 * index + 1) filled (by omega)
    have parent := filled.parents (2 ^ (levels + (upper + 1)) - 2 ^ (upper + 1) + index) (by omega)
    have here : 2 * 2 ^ (levels + (upper + 1)) - 2 * 2 ^ upper + index =
        2 ^ (levels + (upper + 1)) + (2 ^ (levels + (upper + 1)) - 2 ^ (upper + 1) + index) := by
      omega
    have twice : 2 * (2 ^ (levels + (upper + 1)) - 2 ^ (upper + 1) + index) =
        2 * 2 ^ (levels + (upper + 1)) - 2 * 2 ^ (upper + 1) + 2 * index := by
      omega
    rw [here, parent, twice, left, Nat.add_assoc, right, ← getElem?_rowAbove,
      climb_add levels 1, MerkleRows.climb, MerkleRows.climb]

theorem Filled.root
    (filled : Filled combine (2 ^ height row) row store) :
    store (2 * 2 ^ height row - 2) = MerkleRows.root combine row := by
  rw [MerkleRows.root, List.head?_eq_getElem?]
  exact @Filled.climb _ _ row (height row) 0 0 store filled Nat.one_pos

end Climb

end ModelOS.Data.MerkleRows
