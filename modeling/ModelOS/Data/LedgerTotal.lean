import ModelOS.Data.Ledger

namespace ModelOS.Data

namespace Ledger

variable {Key Coin : Type} [DecidableEq Key] {ledger : Ledger Key Coin} {value : Coin → Int}

def Bounded (ledger : Ledger Key Coin) : Prop :=
  {key | ledger key ≠ none}.Finite

def worth (value : Coin → Int) (coin : Option Coin) : Int :=
  coin.elim 0 value

noncomputable def total (value : Coin → Int) (ledger : Ledger Key Coin) : Int :=
  finsum fun key => worth value (ledger key)

omit [DecidableEq Key] in
theorem bounded_empty : Bounded (fun _ => none : Ledger Key Coin) := by
  simp [Bounded]

theorem Bounded.update (bounded : ledger.Bounded) (key : Key) (coin : Option Coin) :
    Bounded (Function.update ledger key coin) := by
  apply (Set.Finite.insert key bounded).subset
  intro other held
  rcases eq_or_ne other key with rfl | distinct
  · exact Set.mem_insert _ _
  · change Function.update ledger key coin other ≠ none at held
    rw [Function.update_of_ne distinct] at held
    exact Set.mem_insert_of_mem _ held

omit [DecidableEq Key] in
@[simp] theorem total_empty : total value (fun _ => none : Ledger Key Coin) = 0 := by
  simp [total, worth]

omit [DecidableEq Key] in
theorem total_eq_sum {keys : Finset Key} (covers : ∀ key, ledger key ≠ none → key ∈ keys) :
    ledger.total value = keys.sum fun key => worth value (ledger key) := by
  apply finsum_eq_sum_of_support_subset
  intro key member
  apply covers
  intro absent
  apply member
  change worth value (ledger key) = 0
  rw [absent]
  rfl

variable (bounded : ledger.Bounded)
include bounded

theorem total_update (key : Key) (coin : Option Coin) :
    total value (Function.update ledger key coin) =
      ledger.total value - worth value (ledger key) + worth value coin := by
  have covers : ∀ other, ledger other ≠ none → other ∈ insert key bounded.toFinset := by
    intro other held
    exact Finset.mem_insert_of_mem (bounded.mem_toFinset.mpr held)
  have coversUpdated : ∀ other, Function.update ledger key coin other ≠ none →
      other ∈ insert key bounded.toFinset := by
    intro other held
    rcases eq_or_ne other key with rfl | distinct
    · exact Finset.mem_insert_self _ _
    · rw [Function.update_of_ne distinct] at held
      exact covers other held
  rw [total_eq_sum covers, total_eq_sum coversUpdated,
    ← Finset.add_sum_erase _ _ (Finset.mem_insert_self key bounded.toFinset),
    ← Finset.add_sum_erase _ (fun other => worth value (ledger other))
      (Finset.mem_insert_self key bounded.toFinset), Function.update_self]
  have others : ((insert key bounded.toFinset).erase key).sum
      (fun other => worth value (Function.update ledger key coin other)) =
      ((insert key bounded.toFinset).erase key).sum
        fun other => worth value (ledger other) := by
    apply Finset.sum_congr rfl
    intro other member
    rw [Function.update_of_ne (Finset.ne_of_mem_erase member)]
  rw [others]
  omega

theorem Bounded.spend (keys : List Key) : (ledger.spend keys).Bounded := by
  induction keys generalizing ledger with
  | nil => exact bounded
  | cons key keys ih => exact ih (bounded.update key none)

theorem Bounded.create (coins : List (Key × Coin)) : (ledger.create coins).Bounded := by
  induction coins generalizing ledger with
  | nil => exact bounded
  | cons entry coins ih => exact ih (bounded.update entry.1 _)

theorem Bounded.apply (transfer : Transfer Key Coin) : (ledger.apply transfer).Bounded :=
  (bounded.spend _).create _

theorem Bounded.applyAll
    (transfers : List (Transfer Key Coin)) : (ledger.applyAll transfers).Bounded := by
  induction transfers generalizing ledger with
  | nil => exact bounded
  | cons transfer transfers ih => exact ih (bounded.apply transfer)

theorem total_spend (nodup : keys.Nodup) : (ledger.spend keys).total value =
      ledger.total value - (keys.map fun key => worth value (ledger key)).sum := by
  induction keys generalizing ledger with
  | nil => simp [spend]
  | cons key keys ih =>
    obtain ⟨absent, nodup⟩ := List.nodup_cons.mp nodup
    have unchanged : keys.map (fun other =>
        worth value (Function.update ledger key none other)) =
        keys.map fun other => worth value (ledger other) := by
      apply List.map_congr_left
      intro other member
      rw [Function.update_of_ne]
      rintro rfl
      exact absent member
    have spent := @ih (Function.update ledger key none) (bounded.update key none) nodup
    rw [unchanged, total_update bounded] at spent
    rw [List.map_cons, List.sum_cons]
    change (Ledger.spend (Function.update ledger key none) keys).total value = _
    rw [spent]
    simp only [worth, Option.elim_none]
    omega

theorem total_create_le {coins : List (Key × Coin)}
    (nonneg : ∀ key coin, ledger key = some coin → 0 ≤ value coin)
    (createdNonneg : ∀ entry ∈ coins, 0 ≤ value entry.2) : (ledger.create coins).total value ≤
      ledger.total value + (coins.map fun entry => value entry.2).sum := by
  induction coins generalizing ledger with
  | nil => simp [create]
  | cons entry coins ih =>
    obtain ⟨head, tail⟩ := List.forall_mem_cons.mp createdNonneg
    have later : ∀ key coin, Function.update ledger entry.1 (some entry.2) key = some coin →
        0 ≤ value coin := by
      intro key coin held
      rcases eq_or_ne key entry.1 with rfl | distinct
      · rw [Function.update_self] at held
        rwa [← Option.some.inj held]
      · rw [Function.update_of_ne distinct] at held
        exact nonneg key coin held
    have created := ih (bounded.update entry.1 (some entry.2)) later tail
    rw [total_update bounded] at created
    have before : 0 ≤ worth value (ledger entry.1) := by
      cases held : ledger entry.1 with
      | none => rfl
      | some coin => exact nonneg _ _ held
    rw [List.map_cons, List.sum_cons]
    change (Ledger.create (Function.update ledger entry.1 (some entry.2)) coins).total value ≤ _
    change _ ≤ _ - _ + value entry.2 + _ at created
    omega

theorem total_apply_le
    (nodup : transfer.spent.Nodup) (nonneg : ∀ key coin, ledger key = some coin → 0 ≤ value coin)
    (createdNonneg : ∀ entry ∈ transfer.created, 0 ≤ value entry.2) :
    (ledger.apply transfer).total value ≤ ledger.total value -
        (transfer.spent.map fun key => worth value (ledger key)).sum +
      (transfer.created.map fun entry => value entry.2).sum := by
  have created := @total_create_le _ _ _ (ledger.spend transfer.spent) value
    (bounded.spend _) transfer.created
    (fun key coin held => nonneg key coin (spend_eq_some held)) createdNonneg
  rw [total_spend bounded nodup] at created
  exact created

end Ledger

end ModelOS.Data
