import ModelOS.BlockChain.ChainInvariant
import ModelOS.BlockChain.Inference

namespace ModelOS.BlockChain

/-! Every node but the genesis block has a skip to the ancestor at a height that drops
two one bits of its own height; a walk takes the skip unless it leads too far. -/

def invertLowestOne (n : Int32) : Int32 :=
  n &&& (n - 1)

def getAncestorHeight (height : Int32) : Int32 :=
  invertLowestOne (invertLowestOne height)

theorem toInt_eq_cond (n : Int32) :
    n.toInt = if 2 * n.toBitVec.toNat < 2 ^ 32 then (n.toBitVec.toNat : Int)
      else n.toBitVec.toNat - 2 ^ 32 := by
  rw [← Int32.toInt_toBitVec, BitVec.toInt_eq_toNat_cond]
  simp

theorem toInt_invertLowestOne (nonneg : 0 ≤ n.toInt) :
    0 ≤ (invertLowestOne n).toInt ∧ (invertLowestOne n).toInt ≤ n.toInt ∧
      (0 < n.toInt → (invertLowestOne n).toInt < n.toInt) := by
  have left : (invertLowestOne n).toBitVec.toNat ≤ n.toBitVec.toNat := by
    rw [invertLowestOne, Int32.toBitVec_and, BitVec.toNat_and]
    exact Nat.and_le_left
  have right : (invertLowestOne n).toBitVec.toNat ≤ (n - 1).toBitVec.toNat := by
    rw [invertLowestOne, Int32.toBitVec_and, BitVec.toNat_and]
    exact Nat.and_le_right
  have predecessor : (n - 1).toBitVec.toNat = (2 ^ 32 - 1 + n.toBitVec.toNat) % 2 ^ 32 := by
    rw [Int32.toBitVec_sub, BitVec.toNat_sub]
    rfl
  have size := n.toBitVec.isLt
  rw [toInt_eq_cond n] at nonneg
  rw [toInt_eq_cond, toInt_eq_cond n]
  omega

theorem toInt_getAncestorHeight {height : Int32} (positive : 0 < height.toInt) :
    0 ≤ (getAncestorHeight height).toInt ∧ (getAncestorHeight height).toInt < height.toInt := by
  obtain ⟨nonneg, -, less⟩ := toInt_invertLowestOne (Int.le_of_lt positive)
  obtain ⟨nonnegAgain, atMost, -⟩ := toInt_invertLowestOne nonneg
  exact ⟨nonnegAgain, Int.lt_of_le_of_lt atMost (less positive)⟩

namespace BlockNode

/-- The walk of `Ancestor`, where the skip of a node was found by a walk from its parent.
Each step goes to a node with fewer ancestors. -/
def followSkips : Nat → BlockNode → Int32 → Option BlockNode
  | 0, _, _ => none
  | steps + 1, node, height =>
    if node.height = height then some node
    else
      match node with
      | genesis _ => none
      | child parent _ =>
        let skipHeight := getAncestorHeight (parent.height + 1)
        let skip := if skipHeight < 0 ∨ parent.height < skipHeight then none
          else followSkips steps parent skipHeight
        match skip with
        | none => followSkips steps parent height
        | some ancestor =>
          if height ≤ skipHeight then followSkips steps ancestor height
          else followSkips steps parent height

def skipAncestor (node : BlockNode) (height : Int32) : Option BlockNode :=
  if height < 0 ∨ node.height < height then none
  else followSkips node.ancestors.length node height

variable {node found parent : BlockNode} {block : ModelOS.Wire.MsgBlock} {height : Int32}

theorem length_ancestors_pos : 0 < node.ancestors.length :=
  List.length_pos_iff.mpr ancestors_ne_nil

theorem toInt_height (low : node.ancestors.length ≤ 2 ^ 31) :
    node.height.toInt = node.ancestors.length - 1 := by
  induction node with
  | genesis block => rfl
  | child parent block ih =>
    rw [ancestors, List.length_cons] at low ⊢
    have positive := @length_ancestors_pos parent
    have below := ih (by omega)
    rw [BlockNode.height, Int32.toInt_add, below]
    have one : (1 : Int32).toInt = 1 := rfl
    rw [one, Int.bmod_eq_of_le]
    · omega
    · omega
    · omega

theorem ancestor_self (nonneg : 0 ≤ node.height) : node.ancestor node.height = some node := by
  rw [ancestor, if_neg (by grind)]
  cases node with
  | genesis block => exact List.find?_cons_of_pos (decide_eq_true rfl)
  | child parent block => exact List.find?_cons_of_pos (decide_eq_true rfl)

theorem ancestor_child (low : (child parent block).ancestors.length ≤ 2 ^ 31)
    (below : height ≤ parent.height) :
    (child parent block).ancestor height = parent.ancestor height := by
  have here := toInt_height low
  rw [ancestors, List.length_cons] at low here
  have there := @toInt_height parent (by omega)
  rw [Int32.le_iff_toInt_le] at below
  rw [ancestor, ancestor, ancestors, List.find?_cons_of_neg]
  · simp only [Int32.lt_iff_toInt_lt]
    apply if_congr _ rfl rfl
    omega
  · rw [decide_eq_true_eq]
    rintro rfl
    omega

theorem height_le_of_mem (low : node.ancestors.length ≤ 2 ^ 31)
    (member : found ∈ node.ancestors) : found.height ≤ node.height := by
  have shorter := length_ancestors_le member
  rw [Int32.le_iff_toInt_le, toInt_height low, toInt_height (shorter.trans low)]
  omega

theorem ancestor_of_mem (low : node.ancestors.length ≤ 2 ^ 31)
    (member : found ∈ node.ancestors) (below : height ≤ found.height) :
    found.ancestor height = node.ancestor height := by
  induction node with
  | genesis block => rw [List.mem_singleton.mp member]
  | child parent block ih =>
    rcases List.mem_cons.mp member with rfl | above
    · rfl
    · have lower : parent.ancestors.length ≤ 2 ^ 31 := by
        rw [ancestors, List.length_cons] at low
        omega
      rw [ih lower above, ancestor_child low]
      exact Int32.le_trans below (height_le_of_mem lower above)

theorem exists_ancestor (low : node.ancestors.length ≤ 2 ^ 31) (nonneg : 0 ≤ height)
    (below : height ≤ node.height) :
    ∃ found ∈ node.ancestors, found.height = height ∧ node.ancestor height = some found := by
  induction node with
  | genesis block =>
    have same : height = 0 := Int32.le_antisymm below nonneg
    subst same
    exact ⟨_, self_mem_ancestors, rfl, ancestor_self nonneg⟩
  | child parent block ih =>
    by_cases same : (child parent block).height = height
    · subst same
      exact ⟨_, self_mem_ancestors, rfl, ancestor_self nonneg⟩
    · have here := toInt_height low
      have lower : parent.ancestors.length ≤ 2 ^ 31 := by
        rw [ancestors, List.length_cons] at low
        omega
      have there := toInt_height lower
      have belowParent : height ≤ parent.height := by
        rw [Int32.le_iff_toInt_le] at below ⊢
        have differs : (child parent block).height.toInt ≠ height.toInt :=
          fun equal => same (Int32.toInt_inj.mp equal)
        rw [ancestors, List.length_cons] at here
        omega
      obtain ⟨found, member, atHeight, isAncestor⟩ := ih lower belowParent
      refine ⟨found, .tail _ member, atHeight, ?_⟩
      rw [ancestor_child low belowParent, isAncestor]

theorem followSkips_self (steps : Nat) (node : BlockNode) :
    followSkips (steps + 1) node node.height = some node := by
  cases node with
  | genesis block => rw [followSkips, if_pos rfl]
  | child parent block => rw [followSkips, if_pos rfl]

theorem followSkips_eq_ancestor (low : node.ancestors.length ≤ 2 ^ 31)
    (enough : node.ancestors.length ≤ steps) (nonneg : 0 ≤ height) (below : height ≤ node.height) :
    followSkips steps node height = node.ancestor height := by
  -- On the steps: the parent and the end of its skip have fewer ancestors than the node.
  induction steps generalizing node height with
  | zero => exact absurd enough (Nat.not_le_of_lt length_ancestors_pos)
  | succ steps ih =>
    by_cases same : node.height = height
    · subst same
      rw [followSkips_self, ancestor_self nonneg]
    · cases node with
      | genesis block => exact absurd (Int32.le_antisymm nonneg below) same
      | child parent block =>
        have here := toInt_height low
        rw [ancestors, List.length_cons] at enough here
        have lower : parent.ancestors.length ≤ 2 ^ 31 := by
          rw [ancestors, List.length_cons] at low
          omega
        have fewer : parent.ancestors.length ≤ steps := Nat.le_of_succ_le_succ enough
        have there := toInt_height lower
        have positive := @length_ancestors_pos parent
        have belowParent : height ≤ parent.height := by
          rw [Int32.le_iff_toInt_le] at below ⊢
          have differs : (child parent block).height.toInt ≠ height.toInt :=
            fun equal => same (Int32.toInt_inj.mp equal)
          omega
        obtain ⟨skipNonneg, skipBelow⟩ := @toInt_getAncestorHeight (parent.height + 1) (by
          change 0 < (child parent block).height.toInt
          omega)
        have skipAbove : 0 ≤ getAncestorHeight (parent.height + 1) := by
          rw [Int32.le_iff_toInt_le]
          exact skipNonneg
        have skipParent : getAncestorHeight (parent.height + 1) ≤ parent.height := by
          rw [Int32.le_iff_toInt_le]
          change _ < (child parent block).height.toInt at skipBelow
          omega
        obtain ⟨skip, member, atHeight, isAncestor⟩ := exists_ancestor lower skipAbove skipParent
        have inRange : ¬ (getAncestorHeight (parent.height + 1) < 0 ∨
            parent.height < getAncestorHeight (parent.height + 1)) := by
          grind
        rw [followSkips, if_neg same]
        simp only [if_neg inRange, ih lower fewer skipAbove skipParent,
          isAncestor, ancestor_child low belowParent]
        split
        · next reaches =>
          rw [← atHeight] at reaches
          have shorter := length_ancestors_le member
          rw [ih (shorter.trans lower) (shorter.trans fewer) nonneg reaches,
            ancestor_of_mem lower member reaches]
        · exact ih lower fewer nonneg belowParent

theorem skipAncestor_eq_ancestor (low : node.ancestors.length ≤ 2 ^ 31) (height : Int32) :
    node.skipAncestor height = node.ancestor height := by
  rw [skipAncestor]
  split
  · next outside => rw [ancestor, if_pos outside]
  · next inside =>
    rw [not_or] at inside
    exact followSkips_eq_ancestor low (Nat.le_refl _) (Int32.not_lt.mp inside.1)
      (Int32.not_lt.mp inside.2)

end BlockNode

end ModelOS.BlockChain
