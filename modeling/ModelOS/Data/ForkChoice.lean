import Mathlib

namespace ModelOS.Data

/-! A fork choice that looks at each block once, when it arrives. Nothing is asked of
the relation `overtakes`; it need not be transitive. -/

structure ForkChoice (Block : Type*) where
  parent : Block → Option Block
  overtakes : (tip block : Block) → Bool

namespace ForkChoice

variable {Block : Type*} (choice : ForkChoice Block)

def step [DecidableEq Block] (tip block : Block) : Block :=
  if choice.parent block = some tip ∨ choice.overtakes tip block = true then block
  else tip

def run [DecidableEq Block] (tip : Block) (order : List Block) : Block :=
  order.foldl choice.step tip

/-- The lower block is the upper one or one of its ancestors. -/
def Descends (upper lower : Block) : Prop :=
  Relation.ReflTransGen (fun upper lower => choice.parent upper = some lower) upper lower

/-- Each block arrives once, after its parent. -/
def Arrives : (delivered order : List Block) → Prop
  | _, [] => True
  | delivered, block :: rest =>
    (∃ below ∈ delivered, choice.parent block = some below) ∧
      block ∉ delivered ∧ Arrives (block :: delivered) rest

/-- The parents of delivered blocks have been delivered. -/
def Closed (delivered : List Block) : Prop :=
  ∀ block ∈ delivered, ∀ below, choice.parent block = some below → below ∈ delivered

/-- The block leads the others: it overtakes each one that is not among its
ancestors, and none of those overtakes or extends it. -/
structure Leads (blocks : List Block) (leader : Block) : Prop where
  ahead : ∀ block ∈ blocks, ¬ choice.Descends leader block → choice.overtakes block leader = true
  unmatched : ∀ block ∈ blocks, ¬ choice.Descends leader block →
    choice.overtakes leader block = false
  childless : ∀ block ∈ blocks, choice.parent block ≠ some leader

/-- The tip is delivered and none of its children are.  The tip only ever moves to
the block that arrives, so this holds at every time. -/
structure Topmost (delivered : List Block) (tip : Block) : Prop where
  closed : choice.Closed delivered
  member : tip ∈ delivered
  childless : ∀ block ∈ delivered, choice.parent block ≠ some tip

variable {choice} {delivered order : List Block} {tip leader block below : Block}

theorem Leads.mono (leads : choice.Leads blocks leader)
    (fewer : ∀ block ∈ others, block ∈ blocks) : choice.Leads others leader :=
  ⟨fun block mem => leads.ahead block (fewer block mem),
    fun block mem => leads.unmatched block (fewer block mem),
    fun block mem => leads.childless block (fewer block mem)⟩

theorem Closed.mem_of_descends (closed : choice.Closed delivered)
    (member : leader ∈ delivered) (descends : choice.Descends leader block) :
    block ∈ delivered := by
  induction descends with
  | refl => exact member
  | tail _ parent ih => exact closed _ ih _ parent

theorem Closed.cons (closed : choice.Closed delivered) (member : below ∈ delivered)
    (parent : choice.parent block = some below) : choice.Closed (block :: delivered) := by
  intro upper mem lower isParent
  rcases List.mem_cons.mp mem with rfl | earlier
  · obtain rfl := Option.some.inj (parent.symm.trans isParent)
    exact .tail _ member
  · exact .tail _ (closed upper earlier lower isParent)

theorem topmost_root (rooted : choice.parent tip = none) : choice.Topmost [tip] tip := by
  have noParent : ∀ block ∈ [tip], ∀ below, choice.parent block ≠ some below := by
    intro block mem below parent
    rw [List.mem_singleton.mp mem, rooted] at parent
    cases parent
  exact ⟨fun block mem below parent => absurd parent (noParent block mem below),
    (.head _), fun block mem => noParent block mem tip⟩

/-- When the leader arrives on a tip that is one of its ancestors, that tip is its
parent: a block between the two would be a delivered child of the tip. -/
theorem Topmost.parent_of_descends (topmost : choice.Topmost delivered tip)
    (member : below ∈ delivered) (parent : choice.parent leader = some below)
    (isNew : leader ∉ delivered) (descends : choice.Descends leader tip) :
    choice.parent leader = some tip := by
  rcases Relation.ReflTransGen.cases_head descends with rfl | ⟨next, isParent, further⟩
  · exact absurd topmost.member isNew
  · obtain rfl := Option.some.inj (parent.symm.trans isParent)
    rcases Relation.ReflTransGen.cases_tail further with rfl | ⟨child, above, isChild⟩
    · exact parent
    · exact absurd isChild (topmost.childless child (topmost.closed.mem_of_descends member above))

variable [DecidableEq Block]

theorem Topmost.step (topmost : choice.Topmost delivered tip)
    (member : below ∈ delivered) (parent : choice.parent block = some below)
    (isNew : block ∉ delivered) : choice.Topmost (block :: delivered) (choice.step tip block) := by
  have closed := topmost.closed.cons member parent
  rw [ForkChoice.step]
  split
  · refine ⟨closed, .head _, ?_⟩
    intro other mem isChild
    rcases List.mem_cons.mp mem with rfl | earlier
    · obtain rfl := Option.some.inj (parent.symm.trans isChild)
      exact isNew member
    · exact isNew (topmost.closed other earlier block isChild)
  · next apart =>
    refine ⟨closed, .tail _ topmost.member, ?_⟩
    intro other mem isChild
    rcases List.mem_cons.mp mem with rfl | earlier
    · exact apart (.inl isChild)
    · exact topmost.childless other earlier isChild

theorem run_leader (closed : choice.Closed delivered) (member : leader ∈ delivered)
    (arrives : choice.Arrives delivered order) (leads : choice.Leads order leader) :
    choice.run leader order = leader := by
  induction order generalizing delivered with
  | nil => rfl
  | cons block rest ih =>
    obtain ⟨⟨below, belowMember, parent⟩, isNew, arrives⟩ := arrives
    have later : ¬ choice.Descends leader block := by
      intro descends
      exact isNew (closed.mem_of_descends member descends)
    have stays : choice.step leader block = leader := by
      apply if_neg
      rintro (isChild | overtaken)
      · exact leads.childless block (.head _) isChild
      · rw [leads.unmatched block (.head _) later] at overtaken
        cases overtaken
    rw [run, List.foldl_cons, stays]
    exact ih (closed.cons belowMember parent) (.tail _ member) arrives (leads.mono fun _ => .tail _)

theorem run_eq_leader (topmost : choice.Topmost delivered tip)
    (isNew : leader ∉ delivered) (member : leader ∈ order)
    (arrives : choice.Arrives delivered order) (leads : choice.Leads (delivered ++ order) leader) :
    choice.run tip order = leader := by
  induction order generalizing delivered tip with
  | nil => cases member
  | cons block rest ih =>
    obtain ⟨⟨below, belowMember, parent⟩, blockNew, arrives⟩ := arrives
    rw [run, List.foldl_cons]
    by_cases isLeader : block = leader
    · subst isLeader
      have moves : choice.step tip block = block := by
        apply if_pos
        by_cases descends : choice.Descends block tip
        · exact .inl (topmost.parent_of_descends belowMember parent isNew descends)
        · exact .inr (leads.ahead tip (List.mem_append_left _ topmost.member) descends)
      rw [moves]
      exact run_leader (topmost.closed.cons belowMember parent) (.head _)
        arrives (leads.mono fun _ mem =>
          List.mem_append_right _ (.tail _ mem))
    · have other := Ne.symm isLeader
      refine ih (topmost.step belowMember parent blockNew) ?_
        ((List.mem_cons.mp member).resolve_left other) arrives (leads.mono ?_)
      · intro mem
        exact isNew ((List.mem_cons.mp mem).resolve_left other)
      · intro block mem
        simp only [List.cons_append, List.mem_cons, List.mem_append] at mem ⊢
        tauto

theorem run_eq_of_leads (rooted : choice.parent root = none)
    (arrives : choice.Arrives [root] order) (member : leader ∈ root :: order)
    (leads : choice.Leads (root :: order) leader) : choice.run root order = leader := by
  have topmost := topmost_root rooted
  by_cases isRoot : leader = root
  · subst isRoot
    exact run_leader topmost.closed topmost.member arrives (leads.mono fun _ => .tail _)
  · exact run_eq_leader topmost (by simpa using isRoot)
      ((List.mem_cons.mp member).resolve_left isRoot) arrives leads

end ForkChoice

end ModelOS.Data
