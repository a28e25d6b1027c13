import Mathlib

namespace ModelOS.Data

/-! Hash computations over binary trees, kept as trees: what was hashed, and
which digests were taken as given. -/

inductive HashInput (Leaf Tag Digest : Type)
  | leaf (value : Leaf)
  | node (tag : Tag) (left right : Digest)
deriving DecidableEq

inductive HashTree (Leaf Tag Digest : Type)
  | given (digest : Digest)
  | leaf (value : Leaf)
  | node (tag : Tag) (left right : HashTree Leaf Tag Digest)

namespace HashTree

variable {Leaf Tag Digest : Type}

section Hash

variable (hash : HashInput Leaf Tag Digest → Digest)

def digest : HashTree Leaf Tag Digest → Digest
  | given value => value
  | leaf value => hash (.leaf value)
  | node tag left right => hash (.node tag left.digest right.digest)

def inputs : HashTree Leaf Tag Digest → Set (HashInput Leaf Tag Digest)
  | given _ => ∅
  | leaf value => {.leaf value}
  | node tag left right =>
    insert (.node tag (left.digest hash) (right.digest hash)) (left.inputs ∪ right.inputs)

end Hash

/-- No digest is taken as given. -/
def Complete : HashTree Leaf Tag Digest → Prop
  | given _ => False
  | leaf _ => True
  | node _ left right => left.Complete ∧ right.Complete

/-- The leaf stands in the tree, on a path with that many turns to the right. -/
inductive Occurs (value : Leaf) : HashTree Leaf Tag Digest → Nat → Prop
  | leaf : Occurs value (.leaf value) 0
  | left {tag : Tag} {left right : HashTree Leaf Tag Digest} {turns : Nat} :
      Occurs value left turns → Occurs value (.node tag left right) turns
  | right {tag : Tag} {left right : HashTree Leaf Tag Digest} {turns : Nat} :
      Occurs value right turns → Occurs value (.node tag left right) (turns + 1)

variable {hash : HashInput Leaf Tag Digest → Digest}

theorem exists_node_of_digest_eq {left right full : HashTree Leaf Tag Digest}
    (complete : full.Complete)
    (collisionFree : Set.InjOn hash (full.inputs hash ∪ (node tag left right).inputs hash))
    (equal : (node tag left right).digest hash = full.digest hash) :
    ∃ fullLeft fullRight, full = .node tag fullLeft fullRight ∧
      left.digest hash = fullLeft.digest hash ∧ right.digest hash = fullRight.digest hash := by
  cases full with
  | given digest => exact complete.elim
  | leaf other =>
    have same := collisionFree (.inr (Set.mem_insert _ _)) (.inl rfl) equal
    cases same
  | node otherTag fullLeft fullRight =>
    have same := collisionFree (.inr (Set.mem_insert _ _)) (.inl (Set.mem_insert _ _)) equal
    obtain ⟨rfl, leftEqual, rightEqual⟩ := HashInput.node.inj same
    exact ⟨fullLeft, fullRight, rfl, leftEqual, rightEqual⟩

/-- A tree in which some subtrees are replaced by given digests has its leaves
in the places of the complete tree with the same digest, unless one of the two
computations collides with the other. -/
theorem Occurs.of_digest_eq (occurs : Occurs value opened turns) (complete : full.Complete)
    (collisionFree : Set.InjOn hash (full.inputs hash ∪ opened.inputs hash))
    (equal : opened.digest hash = full.digest hash) : Occurs value full turns := by
  induction occurs generalizing full with
  | leaf =>
    cases full with
    | given digest => exact complete.elim
    | leaf other =>
      have same := collisionFree (.inr rfl) (.inl rfl) equal
      cases same
      exact .leaf
    | node tag left right =>
      have same := collisionFree (.inr rfl) (.inl (Set.mem_insert _ _)) equal
      cases same
  | left _ ih =>
    obtain ⟨_, _, rfl, leftEqual, _⟩ := exists_node_of_digest_eq complete collisionFree equal
    refine .left (ih complete.1 (collisionFree.mono ?_) leftEqual)
    exact Set.union_subset_union (Set.subset_union_left.trans (Set.subset_insert _ _))
      (Set.subset_union_left.trans (Set.subset_insert _ _))
  | right _ ih =>
    obtain ⟨_, _, rfl, _, rightEqual⟩ := exists_node_of_digest_eq complete collisionFree equal
    refine .right (ih complete.2 (collisionFree.mono ?_) rightEqual)
    exact Set.union_subset_union (Set.subset_union_right.trans (Set.subset_insert _ _))
      (Set.subset_union_right.trans (Set.subset_insert _ _))

end HashTree

end ModelOS.Data
