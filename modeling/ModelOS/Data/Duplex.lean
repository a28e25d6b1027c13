import ModelOS.Data.Session

namespace ModelOS.Data

/-! Two programs that read what the other one sends, the two directions interleaved in
any way. -/

variable {Symbol ε α β : Type}

namespace Duplex

variable (first : Session Symbol ε α) (second : Session Symbol ε β)

structure Arrived (Symbol : Type) where
  atFirst : List Symbol
  atSecond : List Symbol

inductive Step : Arrived Symbol → Arrived Symbol → Prop
  | toFirst {arrived : Arrived Symbol} {symbol : Symbol}
      (pending : arrived.atFirst ++ [symbol] <+: (second arrived.atSecond).sent) :
      Step arrived ⟨arrived.atFirst ++ [symbol], arrived.atSecond⟩
  | toSecond {arrived : Arrived Symbol} {symbol : Symbol}
      (pending : arrived.atSecond ++ [symbol] <+: (first arrived.atFirst).sent) :
      Step arrived ⟨arrived.atFirst, arrived.atSecond ++ [symbol]⟩

def Reachable (arrived : Arrived Symbol) : Prop :=
  Relation.ReflTransGen (Step first second) ⟨[], []⟩ arrived

def Quiescent (arrived : Arrived Symbol) : Prop :=
  ∀ next, ¬ Step first second arrived next

/-- On every interleaving neither side fails; all of them end, and both sides have
then come to their values. -/
structure Completes (value : α) (other : β) : Prop where
  safe : ∀ arrived, Reachable first second arrived →
    (∀ error, (first arrived.atFirst).outcome ≠ .failed error) ∧
      ∀ error, (second arrived.atSecond).outcome ≠ .failed error
  ends : ∃ bound, ∀ arrived, Reachable first second arrived →
    arrived.atFirst.length + arrived.atSecond.length ≤ bound
  values : ∀ arrived, Reachable first second arrived →
    Quiescent first second arrived →
      (first arrived.atFirst).outcome = .done value ∧
        (second arrived.atSecond).outcome = .done other

variable {first second} {arrived : Arrived Symbol}

theorem Reachable.pending (causal : first.Causal) (causalSecond : second.Causal)
    (reachable : Reachable first second arrived) :
    arrived.atFirst <+: (second arrived.atSecond).sent ∧
      arrived.atSecond <+: (first arrived.atFirst).sent := by
  induction reachable with
  | refl => exact ⟨List.nil_prefix, List.nil_prefix⟩
  | tail _ step ih =>
    cases step with
    | toFirst pending =>
      exact ⟨pending, ih.2.trans (causal.sent_mono (List.prefix_append _ _))⟩
    | toSecond pending =>
      exact ⟨ih.1.trans (causalSecond.sent_mono (List.prefix_append _ _)), pending⟩

theorem Reachable.isPrefix (causal : first.Causal) (causalSecond : second.Causal)
    (answers : (second toSecond).sent = toFirst)
    (answered : (first toFirst).sent = toSecond) (reachable : Reachable first second arrived) :
    arrived.atFirst <+: toFirst ∧ arrived.atSecond <+: toSecond := by
  induction reachable with
  | refl => exact ⟨List.nil_prefix, List.nil_prefix⟩
  | tail _ step ih =>
    cases step with
    | toFirst pending =>
      refine ⟨?_, ih.2⟩
      rw [← answers]
      exact pending.trans (causalSecond.sent_mono ih.2)
    | toSecond pending =>
      refine ⟨ih.1, ?_⟩
      rw [← answered]
      exact pending.trans (causal.sent_mono ih.1)

private theorem eq_of_no_next {shorter longer : List Symbol} (before : shorter <+: longer)
    (stuck : ∀ symbol, ¬ shorter ++ [symbol] <+: longer) : shorter = longer := by
  obtain ⟨rest, rfl⟩ := before
  cases rest with
  | nil => exact (List.append_nil _).symm
  | cons symbol rest =>
    refine absurd ?_ (stuck symbol)
    exact (List.prefix_append_right_inj _).mpr (List.prefix_append [symbol] rest)

theorem Quiescent.eq_sent (causal : first.Causal) (causalSecond : second.Causal)
    (reachable : Reachable first second arrived) (quiescent : Quiescent first second arrived) :
    (second arrived.atSecond).sent = arrived.atFirst ∧
      (first arrived.atFirst).sent = arrived.atSecond := by
  obtain ⟨toFirst, toSecond⟩ := reachable.pending causal causalSecond
  exact ⟨(eq_of_no_next toFirst fun _ pending => quiescent _ (.toFirst pending)).symm,
    (eq_of_no_next toSecond fun _ pending => quiescent _ (.toSecond pending)).symm⟩

theorem Reachable.deliver_first
    (reachable : Reachable first second ⟨atFirst, atSecond⟩)
    (pending : atFirst ++ more <+: (second atSecond).sent) :
    Reachable first second ⟨atFirst ++ more, atSecond⟩ := by
  induction more using List.reverseRecOn with
  | nil =>
    rw [List.append_nil]
    exact reachable
  | append_singleton more symbol ih =>
    rw [← List.append_assoc] at pending ⊢
    exact (ih ((List.prefix_append _ _).trans pending)).tail (.toFirst pending)

theorem Reachable.swap (reachable : Reachable first second arrived) :
    Reachable second first ⟨arrived.atSecond, arrived.atFirst⟩ := by
  induction reachable with
  | refl => exact .refl
  | tail _ step ih =>
    cases step with
    | toFirst pending => exact ih.tail (.toSecond pending)
    | toSecond pending => exact ih.tail (.toFirst pending)

theorem Reachable.deliver_second
    (reachable : Reachable first second ⟨atFirst, atSecond⟩)
    (pending : atSecond ++ more <+: (first atFirst).sent) :
    Reachable first second ⟨atFirst, atSecond ++ more⟩ :=
  (reachable.swap.deliver_first pending).swap

theorem Completes.symm (completes : Completes first second value other) :
    Completes second first other value := by
  refine ⟨?_, ?_, ?_⟩
  · intro arrived reachable
    exact (completes.safe _ reachable.swap).symm
  · obtain ⟨bound, ends⟩ := completes.ends
    refine ⟨bound, ?_⟩
    intro arrived reachable
    rw [Nat.add_comm]
    exact ends _ reachable.swap
  · intro arrived reachable quiescent
    refine (completes.values _ reachable.swap ?_).symm
    intro next step
    cases step with
    | toFirst pending => exact quiescent _ (.toSecond pending)
    | toSecond pending => exact quiescent _ (.toFirst pending)

theorem Completes.not_fails
    (completes : Completes first second value other) (reachable : Reachable first second arrived) :
    ¬ first.Fails arrived.atFirst ∧ ¬ second.Fails arrived.atSecond := by
  refine ⟨?_, ?_⟩
  · rintro ⟨error, failed⟩
    exact (completes.safe _ reachable).1 error failed
  · rintro ⟨error, failed⟩
    exact (completes.safe _ reachable).2 error failed

/-- It is enough to know two inputs that answer each other, on which both sides come to
an end, and that the two sides do not get stuck before. -/
theorem Completes.of_answers (causal : first.Causal) (causalSecond : second.Causal)
    (answers : (second toSecond).sent = toFirst) (answered : (first toFirst).sent = toSecond)
    (ends : (first toFirst).outcome = .done value)
    (endsSecond : (second toSecond).outcome = .done other)
    (least : ∀ atFirst atSecond, (second atSecond).sent = atFirst →
      (first atFirst).sent = atSecond → toFirst <+: atFirst ∧ toSecond <+: atSecond) :
    Completes first second value other := by
  refine ⟨?_, ⟨toFirst.length + toSecond.length, ?_⟩, ?_⟩
  · intro arrived reachable
    obtain ⟨atFirst, atSecond⟩ := reachable.isPrefix causal causalSecond answers answered
    refine ⟨?_, ?_⟩
    · intro error failed
      have same := causal.outcome_eq atFirst (by rw [failed]; rintro ⟨⟩)
      rw [ends, failed] at same
      cases same
    · intro error failed
      have same := causalSecond.outcome_eq atSecond (by rw [failed]; rintro ⟨⟩)
      rw [endsSecond, failed] at same
      cases same
  · intro arrived reachable
    obtain ⟨atFirst, atSecond⟩ := reachable.isPrefix causal causalSecond answers answered
    exact Nat.add_le_add atFirst.length_le atSecond.length_le
  · intro arrived reachable quiescent
    obtain ⟨atFirst, atSecond⟩ := reachable.isPrefix causal causalSecond answers answered
    obtain ⟨sentFirst, sentSecond⟩ := quiescent.eq_sent causal causalSecond reachable
    obtain ⟨allFirst, allSecond⟩ := least _ _ sentFirst sentSecond
    rw [List.IsPrefix.eq_of_length atFirst (Nat.le_antisymm atFirst.length_le allFirst.length_le),
      List.IsPrefix.eq_of_length atSecond (Nat.le_antisymm atSecond.length_le allSecond.length_le)]
    exact ⟨ends, endsSecond⟩

end Duplex

end ModelOS.Data
