import ModelOS.Data.Ledger

namespace ModelOS.Data

namespace Ledger

variable {Key Coin : Type} [DecidableEq Key] {ledger : Ledger Key Coin}

theorem applyAll_append (first second : List (Transfer Key Coin)) :
    ledger.applyAll (first ++ second) = (ledger.applyAll first).applyAll second :=
  List.foldl_append

theorem connectsAll_append :
    ConnectsAll (first ++ second) ledger ↔
      ConnectsAll first ledger ∧ ConnectsAll second (ledger.applyAll first) := by
  induction first generalizing ledger with
  | nil => simp [ConnectsAll]
  | cons transfer rest ih =>
    rw [List.cons_append, ConnectsAll, ConnectsAll, ih, applyAll_cons, and_assoc]

theorem applyAll_eq_some (held : ledger.applyAll transfers key = some coin) :
    ledger key = some coin ∨
      ∃ transfer ∈ transfers, (key, coin) ∈ transfer.created := by
  induction transfers generalizing ledger with
  | nil => exact .inl held
  | cons transfer rest ih =>
    rcases ih held with before | ⟨other, later, created⟩
    · rcases apply_eq_some before with here | created
      · exact .inl here
      · exact .inr ⟨transfer, .head _, created⟩
    · exact .inr ⟨other, .tail _ later, created⟩

variable {before after : List (Transfer Key Coin)} {transfer : Transfer Key Coin} {key : Key}

theorem created_before_spent (connects : ConnectsAll (before ++ transfer :: after) fun _ => none)
    (spent : key ∈ transfer.spent) : ∃ creator ∈ before, key ∈ creator.created.map Prod.fst := by
  obtain ⟨_, here, _⟩ := connectsAll_append.mp connects
  obtain ⟨coin, available⟩ := here.available key spent
  rcases applyAll_eq_some available with empty | ⟨creator, member, created⟩
  · cases empty
  · exact ⟨creator, member, List.mem_map_of_mem created⟩

theorem created_after_spent (spent : key ∈ transfer.spent)
    (held : (ledger.apply transfer).applyAll after key = some coin) :
    ∃ creator ∈ transfer :: after, key ∈ creator.created.map Prod.fst := by
  rcases applyAll_eq_some held with kept | ⟨creator, member, created⟩
  · rcases create_eq_some kept with here | created
    · rw [spend_apply, if_pos spent] at here
      cases here
    · exact ⟨transfer, .head _, List.mem_map_of_mem created⟩
  · exact ⟨creator, .tail _ member, List.mem_map_of_mem created⟩

end Ledger

/-- A key tells the identifier of the transfer that creates it, and transfers with
one identifier share a key that they spend. -/
structure History {Key Coin Id : Type} [DecidableEq Key] (origin : Key → Id)
    (history : List (Id × Transfer Key Coin)) : Prop where
  connects : Ledger.ConnectsAll (history.map Prod.snd) fun _ => none
  creator : ∀ entry ∈ history, ∀ key ∈ entry.2.created.map Prod.fst, origin key = entry.1
  twins : history.Pairwise fun first second => first.1 = second.1 →
    ∃ key ∈ first.2.spent, key ∈ second.2.spent

namespace History

variable {Key Coin Id : Type} [DecidableEq Key] {origin : Key → Id}
  {front : List (Id × Transfer Key Coin)} {last entry : Id × Transfer Key Coin}

theorem init (history : History origin (front ++ [last])) : History origin front := by
  have connects := history.connects
  rw [List.map_append] at connects
  exact ⟨(Ledger.connectsAll_append.mp connects).1,
    fun entry member => history.creator entry (List.mem_append_left _ member),
    (List.pairwise_append.mp history.twins).1⟩

/-- Where no identifier came twice, the next transfer spends nothing that was spent
before: it would have two creators. -/
theorem not_spent_again (history : History origin (front ++ [last]))
    (distinct : (front.map Prod.fst).Nodup) (member : entry ∈ front)
    (spent : key ∈ entry.2.spent) : key ∉ last.2.spent := by
  intro again
  obtain ⟨before, after, rfl⟩ := List.append_of_mem member
  have connects := history.connects
  rw [List.map_append, Ledger.connectsAll_append] at connects
  obtain ⟨connects, here, _⟩ := connects
  obtain ⟨coin, available⟩ := here.available key again
  rw [List.map_append, List.map_cons] at connects available
  rw [Ledger.applyAll_append, Ledger.applyAll_cons] at available
  obtain ⟨_, earlier, firstCreates⟩ := Ledger.created_before_spent connects spent
  obtain ⟨_, later, secondCreates⟩ := Ledger.created_after_spent spent available
  obtain ⟨first, firstMember, rfl⟩ := List.mem_map.mp earlier
  rw [← List.map_cons] at later
  obtain ⟨second, secondMember, rfl⟩ := List.mem_map.mp later
  have same : first.1 = second.1 := (history.creator first (List.mem_append_left _
      (List.mem_append_left _ firstMember)) key firstCreates).symm.trans
      (history.creator second (List.mem_append_left _
        (List.mem_append_right _ secondMember)) key secondCreates)
  rw [List.map_append, List.nodup_append] at distinct
  exact distinct.2.2 first.1 (List.mem_map_of_mem firstMember) second.1
    (List.mem_map_of_mem secondMember) same

theorem nodup
    (isHistory : History origin history) : (history.map Prod.fst).Nodup := by
  induction history using List.reverseRecOn with
  | nil => exact List.nodup_nil
  | append_singleton front last ih =>
    have distinct := ih isHistory.init
    rw [List.map_append, List.map_singleton, List.nodup_append]
    refine ⟨distinct, List.nodup_singleton _, ?_⟩
    intro identifier earlier other here same
    obtain ⟨entry, member, rfl⟩ := List.mem_map.mp earlier
    obtain rfl := List.mem_singleton.mp here
    obtain ⟨key, spent, again⟩ := (List.pairwise_append.mp isHistory.twins).2.2
      entry member last (List.mem_singleton_self _) same
    exact isHistory.not_spent_again distinct member spent again

theorem disjoint_spent {history : List (Id × Transfer Key Coin)}
    (isHistory : History origin history) : history.Pairwise fun first second =>
      List.Disjoint first.2.spent second.2.spent := by
  induction history using List.reverseRecOn with
  | nil => exact List.Pairwise.nil
  | append_singleton front last ih =>
    refine List.pairwise_append.mpr ⟨ih isHistory.init, List.pairwise_singleton _ _, ?_⟩
    intro entry member other here
    obtain rfl := List.mem_singleton.mp here
    intro key spent
    exact isHistory.not_spent_again isHistory.init.nodup member spent

end History

end ModelOS.Data
