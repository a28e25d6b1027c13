import Mathlib

namespace ModelOS.Data

/-! A branch lists, from the leaf upwards, the sibling of each node on the path and
whether it stands on the left. -/

namespace MerkleBranch

variable {Digest Message : Type} (hash : Message → Digest) (pair : Digest → Digest → Message)

def parentMessage (current sibling : Digest) (isLeft : Bool) : Message :=
  if isLeft then pair sibling current else pair current sibling

def climb : Digest → List (Digest × Bool) → Digest
  | current, [] => current
  | current, (sibling, isLeft) :: rest =>
    climb (hash (parentMessage pair current sibling isLeft)) rest

def messages : Digest → List (Digest × Bool) → List Message
  | _, [] => []
  | current, (sibling, isLeft) :: rest =>
    let message := parentMessage pair current sibling isLeft
    message :: messages (hash message) rest

def directions (branch : List (Digest × Bool)) : List Bool :=
  branch.map Prod.snd

variable {hash pair}

@[simp] theorem climb_append (current : Digest) (lower upper : List (Digest × Bool)) :
    climb hash pair current (lower ++ upper) =
      climb hash pair (climb hash pair current lower) upper := by
  induction lower generalizing current with
  | nil => rfl
  | cons step rest ih => exact ih _

theorem messages_append (current : Digest) (lower upper : List (Digest × Bool)) :
    messages hash pair current (lower ++ upper) = messages hash pair current lower ++
        messages hash pair (climb hash pair current lower) upper := by
  induction lower generalizing current with
  | nil => rfl
  | cons step rest ih =>
    simp only [List.cons_append, messages, climb]
    rw [ih]

theorem parentMessage_injective (pairInjective : ∀ {left right left' right'},
      pair left right = pair left' right' → left = left' ∧ right = right')
    (equality : parentMessage pair current sibling isLeft =
      parentMessage pair current' sibling' isLeft) : current = current' ∧ sibling = sibling' := by
  cases isLeft with
  | true =>
    obtain ⟨left, right⟩ := pairInjective equality
    exact ⟨right, left⟩
  | false => exact pairInjective equality

/-- Two branches that turn the same way at every level and meet in one root
start from the same leaf, unless they exhibit a collision. -/
theorem climb_injective (pairInjective : ∀ {left right left' right'},
      pair left right = pair left' right' → left = left' ∧ right = right')
    (collisionFree : Set.InjOn hash hashed)
    (firstHashed : ∀ message ∈ messages hash pair leaf first, message ∈ hashed)
    (secondHashed : ∀ message ∈ messages hash pair leaf' second, message ∈ hashed)
    (sameDirections : directions first = directions second)
    (sameRoot : climb hash pair leaf first = climb hash pair leaf' second) : leaf = leaf' := by
  induction first generalizing leaf leaf' second with
  | nil =>
    cases second with
    | nil => exact sameRoot
    | cons step rest => simp [directions] at sameDirections
  | cons step rest ih =>
    cases second with
    | nil => simp [directions] at sameDirections
    | cons step' rest' =>
      obtain ⟨sibling, isLeft⟩ := step
      obtain ⟨sibling', isLeft'⟩ := step'
      simp only [directions, List.map_cons, List.cons.injEq] at sameDirections
      obtain ⟨rfl, restDirections⟩ := sameDirections
      simp only [messages, List.mem_cons, forall_eq_or_imp] at firstHashed secondHashed
      have parents : hash (parentMessage pair leaf sibling isLeft) =
            hash (parentMessage pair leaf' sibling' isLeft) :=
        ih firstHashed.2 secondHashed.2 restDirections sameRoot
      have sameMessage := collisionFree firstHashed.1 secondHashed.1 parents
      exact (parentMessage_injective pairInjective sameMessage).1

end MerkleBranch

end ModelOS.Data
