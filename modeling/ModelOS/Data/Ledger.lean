import Mathlib

namespace ModelOS.Data

/-! Partial maps from keys to unspent coins. A transfer spends keys and creates coins;
knowing the coins it spent is enough to undo it. -/

abbrev Ledger (Key Coin : Type) := Key → Option Coin

structure Transfer (Key Coin : Type) where
  spent : List Key
  created : List (Key × Coin)

namespace Ledger

variable {Key Coin : Type} [DecidableEq Key]

def spend (ledger : Ledger Key Coin) (keys : List Key) : Ledger Key Coin :=
  keys.foldl (fun ledger key => Function.update ledger key none) ledger

def create (ledger : Ledger Key Coin) (coins : List (Key × Coin)) : Ledger Key Coin :=
  coins.foldl (fun ledger entry => Function.update ledger entry.1 (some entry.2)) ledger

def apply (transfer : Transfer Key Coin) (ledger : Ledger Key Coin) : Ledger Key Coin :=
  (ledger.spend transfer.spent).create transfer.created

def coins (transfer : Transfer Key Coin) (ledger : Ledger Key Coin) : List Coin :=
  transfer.spent.filterMap ledger

/-- Take the created coins away and put the spent ones back, last one first. -/
def undo (transfer : Transfer Key Coin) (coins : List Coin)
    (ledger : Ledger Key Coin) : Ledger Key Coin :=
  (ledger.spend (transfer.created.map Prod.fst)).create (transfer.spent.zip coins).reverse

/-- Every spent key holds a coin and is spent once, and no created coin
overwrites another. -/
structure Connects (transfer : Transfer Key Coin) (ledger : Ledger Key Coin) : Prop where
  nodup : transfer.spent.Nodup
  available : ∀ key ∈ transfer.spent, ∃ coin, ledger key = some coin
  fresh : ∀ key ∈ transfer.created.map Prod.fst, ledger.spend transfer.spent key = none

instance (transfer : Transfer Key Coin) (ledger : Ledger Key Coin) :
    Decidable (Connects transfer ledger) :=
  decidable_of_iff (transfer.spent.Nodup ∧ (∀ key ∈ transfer.spent, (ledger key).isSome = true) ∧
      ∀ key ∈ transfer.created.map Prod.fst, (ledger.spend transfer.spent key).isNone = true) <| by
    simp only [Option.isSome_iff_exists, Option.isNone_iff_eq_none]
    constructor
    · rintro ⟨nodup, available, fresh⟩
      exact ⟨nodup, available, fresh⟩
    · rintro ⟨nodup, available, fresh⟩
      exact ⟨nodup, available, fresh⟩

variable {ledger : Ledger Key Coin} {transfer : Transfer Key Coin}

theorem spend_apply (keys : List Key) (key : Key) :
    ledger.spend keys key = if key ∈ keys then none else ledger key := by
  induction keys generalizing ledger with
  | nil => rfl
  | cons head tail ih =>
    rw [spend, List.foldl_cons, ← spend, ih]
    rcases eq_or_ne key head with rfl | distinct
    · simp
    · simp [distinct]

variable {coins : List (Key × Coin)} {key : Key}

theorem create_apply_of_not_mem (absent : key ∉ coins.map Prod.fst) :
    ledger.create coins key = ledger key := by
  induction coins generalizing ledger with
  | nil => rfl
  | cons head tail ih =>
    simp only [List.map_cons, List.mem_cons, not_or] at absent
    rw [create, List.foldl_cons, ← create, ih absent.2, Function.update_of_ne absent.1]

theorem create_apply_of_mem (nodup : (coins.map Prod.fst).Nodup)
    (present : (key, coin) ∈ coins) : ledger.create coins key = some coin := by
  induction coins generalizing ledger with
  | nil => cases present
  | cons head tail ih =>
    obtain ⟨absent, rest⟩ := List.nodup_cons.mp nodup
    rw [create, List.foldl_cons, ← create]
    rcases List.mem_cons.mp present with rfl | later
    · rw [create_apply_of_not_mem absent, Function.update_self]
    · exact ih rest later

theorem apply_of_not_mem (notSpent : key ∉ transfer.spent)
    (notCreated : key ∉ transfer.created.map Prod.fst) :
    ledger.apply transfer key = ledger key := by
  rw [apply, create_apply_of_not_mem notCreated, spend_apply, if_neg notSpent]

theorem apply_eq_none (empty : ledger key = none)
    (notCreated : key ∉ transfer.created.map Prod.fst) :
    ledger.apply transfer key = none := by
  rw [apply, create_apply_of_not_mem notCreated, spend_apply, empty, ite_self]

theorem spend_eq_some (held : ledger.spend keys key = some coin) :
    ledger key = some coin := by
  rw [spend_apply] at held
  split at held
  · cases held
  · exact held

theorem create_eq_some (held : ledger.create coins key = some coin) :
    ledger key = some coin ∨ (key, coin) ∈ coins := by
  induction coins generalizing ledger with
  | nil => exact .inl held
  | cons entry coins ih =>
    rcases ih held with before | created
    · change Function.update ledger entry.1 (some entry.2) key = some coin at before
      rcases eq_or_ne key entry.1 with rfl | distinct
      · rw [Function.update_self] at before
        rw [← Option.some.inj before]
        exact .inr (.head _)
      · rw [Function.update_of_ne distinct] at before
        exact .inl before
    · exact .inr (.tail _ created)

theorem apply_eq_some
    (held : ledger.apply transfer key = some coin) :
    ledger key = some coin ∨ (key, coin) ∈ transfer.created := by
  rcases create_eq_some held with before | created
  · exact .inl (spend_eq_some before)
  · exact .inr created

namespace Connects

omit [DecidableEq Key] in
private theorem length_filterMap {keys : List Key} {ledger : Ledger Key Coin}
    (available : ∀ key ∈ keys, ∃ coin, ledger key = some coin) :
    (keys.filterMap ledger).length = keys.length := by
  induction keys with
  | nil => rfl
  | cons head tail ih =>
    obtain ⟨coin, held⟩ := available head (.head _)
    rw [List.filterMap_cons_some held, List.length_cons, List.length_cons,
      ih fun key member => available key (.tail _ member)]

omit [DecidableEq Key] in
private theorem mem_zip_filterMap {keys : List Key} {ledger : Ledger Key Coin}
    (available : ∀ key ∈ keys, ∃ coin, ledger key = some coin) {key : Key}
    {coin : Coin} (member : key ∈ keys) (held : ledger key = some coin) :
    (key, coin) ∈ keys.zip (keys.filterMap ledger) := by
  induction keys with
  | nil => cases member
  | cons head tail ih =>
    obtain ⟨first, headHeld⟩ := available head (.head _)
    rw [List.filterMap_cons_some headHeld, List.zip_cons_cons]
    rcases List.mem_cons.mp member with rfl | later
    · rw [Option.some.inj (held.symm.trans headHeld)]
      exact .head _
    · exact .tail _ (ih (fun key member => available key (.tail _ member)) later)

theorem length_coins (connects : Connects transfer ledger) :
    (ledger.coins transfer).length = transfer.spent.length :=
  length_filterMap connects.available

theorem undo_apply (connects : Connects transfer ledger) :
    (ledger.apply transfer).undo transfer (ledger.coins transfer) = ledger := by
  have keys : (transfer.spent.zip (ledger.coins transfer)).map Prod.fst = transfer.spent :=
    List.map_fst_zip (Nat.le_of_eq connects.length_coins.symm)
  have reversed : ((transfer.spent.zip (ledger.coins transfer)).reverse.map
      Prod.fst) = transfer.spent.reverse := by
    rw [List.map_reverse, keys]
  funext key
  rw [undo]
  by_cases spent : key ∈ transfer.spent
  · obtain ⟨coin, held⟩ := connects.available key spent
    rw [held]
    apply create_apply_of_mem
    · rw [reversed]
      exact List.nodup_reverse.mpr connects.nodup
    · exact List.mem_reverse.mpr (mem_zip_filterMap connects.available spent held)
  · rw [create_apply_of_not_mem (by rwa [reversed, List.mem_reverse]), spend_apply]
    split
    · next created =>
      have fresh := connects.fresh key created
      rw [spend_apply, if_neg spent] at fresh
      exact fresh.symm
    · next notCreated => exact apply_of_not_mem spent notCreated

end Connects

def applyAll (transfers : List (Transfer Key Coin)) (ledger : Ledger Key Coin) : Ledger Key Coin :=
  transfers.foldl (fun ledger transfer => ledger.apply transfer) ledger

def coinsAll : List (Transfer Key Coin) → Ledger Key Coin → List Coin
  | [], _ => []
  | transfer :: rest, ledger =>
    ledger.coins transfer ++ coinsAll rest (ledger.apply transfer)

def undoAll : List (Transfer Key Coin) → List Coin → Ledger Key Coin → Ledger Key Coin
  | [], _, ledger => ledger
  | transfer :: rest, coins, ledger =>
    (undoAll rest (coins.drop transfer.spent.length) ledger).undo transfer
      (coins.take transfer.spent.length)

def ConnectsAll : List (Transfer Key Coin) → Ledger Key Coin → Prop
  | [], _ => True
  | transfer :: rest, ledger =>
    Connects transfer ledger ∧ ConnectsAll rest (ledger.apply transfer)

instance decidableConnectsAll : (transfers : List (Transfer Key Coin)) →
    (ledger : Ledger Key Coin) → Decidable (ConnectsAll transfers ledger)
  | [], _ => .isTrue trivial
  | transfer :: rest, ledger =>
    have := decidableConnectsAll rest (ledger.apply transfer)
    inferInstanceAs (Decidable (Connects transfer ledger ∧
      ConnectsAll rest (ledger.apply transfer)))

@[simp] theorem applyAll_nil : ledger.applyAll [] = ledger :=
  rfl

@[simp] theorem applyAll_cons (rest : List (Transfer Key Coin)) :
    ledger.applyAll (transfer :: rest) = (ledger.apply transfer).applyAll rest :=
  rfl

theorem ConnectsAll.length_coinsAll
    (connects : ConnectsAll transfers ledger) : (ledger.coinsAll transfers).length =
      (transfers.map fun transfer => transfer.spent.length).sum := by
  induction transfers generalizing ledger with
  | nil => rfl
  | cons transfer rest ih =>
    rw [coinsAll, List.length_append, connects.1.length_coins,
      ih connects.2, List.map_cons, List.sum_cons]

theorem ConnectsAll.undoAll_applyAll
    (connects : ConnectsAll transfers ledger) :
    (ledger.applyAll transfers).undoAll transfers (ledger.coinsAll transfers) = ledger := by
  induction transfers generalizing ledger with
  | nil => rfl
  | cons transfer rest ih =>
    have count := connects.1.length_coins
    rw [applyAll_cons, undoAll, coinsAll, ← count, List.drop_left,
      List.take_left, ih connects.2, connects.1.undo_apply]

def createdKeys (transfers : List (Transfer Key Coin)) : List Key :=
  transfers.flatMap fun transfer => transfer.created.map Prod.fst

omit [DecidableEq Key] in
theorem createdKeys_cons (rest : List (Transfer Key Coin)) :
    createdKeys (transfer :: rest) = transfer.created.map Prod.fst ++ createdKeys rest :=
  rfl

/-- No transfer spends what it or a later one creates. -/
def InOrder : List (Transfer Key Coin) → Prop
  | [] => True
  | transfer :: rest =>
    (∀ key ∈ transfer.spent, key ∉ createdKeys (transfer :: rest)) ∧ InOrder rest

instance decidableInOrder : (transfers : List (Transfer Key Coin)) → Decidable (InOrder transfers)
  | [] => .isTrue trivial
  | transfer :: rest =>
    have := decidableInOrder rest
    inferInstanceAs (Decidable ((∀ key ∈ transfer.spent, key ∉ createdKeys (transfer :: rest)) ∧
      InOrder rest))

/-! Two ledgers that differ only in coins that are still to be created, or that are about
to be taken away, become equal on the way. -/

def AgreeOff (keys : List Key) (first second : Ledger Key Coin) : Prop :=
  ∀ key ∉ keys, first key = second key

variable {first second : Ledger Key Coin} {transfers : List (Transfer Key Coin)} {keys : List Key}

theorem create_apply_congr (created : key ∈ coins.map Prod.fst) :
    first.create coins key = second.create coins key := by
  induction coins generalizing first second with
  | nil => cases created
  | cons entry coins ih =>
    rw [create, create, List.foldl_cons, List.foldl_cons, ← create, ← create]
    by_cases again : key ∈ coins.map Prod.fst
    · exact ih again
    · obtain rfl | later := List.mem_cons.mp created
      · rw [create_apply_of_not_mem again, create_apply_of_not_mem again,
          Function.update_self, Function.update_self]
      · exact absurd later again

theorem AgreeOff.create (agree : AgreeOff keys first second) (coins : List (Key × Coin)) :
    AgreeOff keys (first.create coins) (second.create coins) := by
  intro key other
  by_cases created : key ∈ coins.map Prod.fst
  · exact create_apply_congr created
  · rw [create_apply_of_not_mem created, create_apply_of_not_mem created, agree key other]

theorem AgreeOff.apply (agree : AgreeOff (createdKeys (transfer :: transfers)) first second) :
    AgreeOff (createdKeys transfers) (first.apply transfer) (second.apply transfer) := by
  intro key other
  by_cases created : key ∈ transfer.created.map Prod.fst
  · exact create_apply_congr created
  · rw [Ledger.apply, Ledger.apply, create_apply_of_not_mem created,
      create_apply_of_not_mem created, spend_apply, spend_apply, agree key]
    exact fun member => (List.mem_append.mp member).elim created other

theorem AgreeOff.applyAll_eq (agree : AgreeOff (createdKeys transfers) first second) :
    first.applyAll transfers = second.applyAll transfers := by
  induction transfers generalizing first second with
  | nil => exact funext fun key => agree key List.not_mem_nil
  | cons transfer rest ih => exact ih agree.apply

theorem AgreeOff.undoAll {coins : List Coin}
    (agree : AgreeOff (keys ++ createdKeys transfers) first second) :
    AgreeOff keys (first.undoAll transfers coins) (second.undoAll transfers coins) := by
  induction transfers generalizing keys coins with
  | nil => rwa [createdKeys, List.flatMap_nil, List.append_nil] at agree
  | cons transfer rest ih =>
    rw [createdKeys, List.flatMap_cons, ← List.append_assoc] at agree
    have later := @ih (keys ++ transfer.created.map Prod.fst)
      (coins.drop transfer.spent.length) agree
    refine AgreeOff.create ?_ _
    intro key other
    rw [spend_apply, spend_apply]
    split
    · rfl
    · next notCreated =>
      exact later key fun member => (List.mem_append.mp member).elim other notCreated

theorem ConnectsAll.undoAll_of_agreeOff (connects : ConnectsAll transfers ledger)
    (agree : AgreeOff (createdKeys transfers) first (ledger.applyAll transfers)) :
    first.undoAll transfers (ledger.coinsAll transfers) = ledger := by
  have undone : AgreeOff [] (first.undoAll transfers (ledger.coinsAll transfers))
      ((ledger.applyAll transfers).undoAll transfers (ledger.coinsAll transfers)) := agree.undoAll
  rw [connects.undoAll_applyAll] at undone
  exact funext fun key => undone key List.not_mem_nil

/-! Where the created keys are new, transfers leave a key as it was unless they spend a coin
that was there or leave one behind. -/

def spentKeys (transfers : List (Transfer Key Coin)) : List Key :=
  transfers.flatMap Transfer.spent

omit [DecidableEq Key] in
theorem spentKeys_cons (rest : List (Transfer Key Coin)) :
    spentKeys (transfer :: rest) = transfer.spent ++ spentKeys rest :=
  rfl

/-- What is created and not spent by a later transfer. -/
def leftKeys : List (Transfer Key Coin) → List Key
  | [] => []
  | transfer :: rest =>
    (transfer.created.map Prod.fst).filter (· ∉ spentKeys rest) ++ leftKeys rest

theorem mem_leftKeys_cons : key ∈ leftKeys (transfer :: transfers) ↔
    key ∈ transfer.created.map Prod.fst ∧ key ∉ spentKeys transfers ∨ key ∈ leftKeys transfers := by
  rw [leftKeys, List.mem_append, List.mem_filter, decide_eq_true_iff]

theorem mem_createdKeys_of_mem_leftKeys (left : key ∈ leftKeys transfers) :
    key ∈ createdKeys transfers := by
  induction transfers with
  | nil => exact left
  | cons transfer rest ih =>
    rcases mem_leftKeys_cons.mp left with here | later
    · exact List.mem_append_left _ here.1
    · exact List.mem_append_right _ (ih later)

theorem create_ne_none (held : key ∈ coins.map Prod.fst ∨ ledger key ≠ none) :
    ledger.create coins key ≠ none := by
  induction coins generalizing ledger with
  | nil => exact held.resolve_left List.not_mem_nil
  | cons entry coins ih =>
    refine ih ?_
    rcases eq_or_ne key entry.1 with rfl | distinct
    · exact .inr (by simp)
    · change _ ∨ Function.update ledger entry.1 (some entry.2) key ≠ none
      rw [Function.update_of_ne distinct]
      exact held.imp_left fun listed => (List.mem_cons.mp listed).resolve_left distinct

theorem applyAll_ne_none
    (held : key ∈ leftKeys transfers ∨ key ∉ spentKeys transfers ∧ ledger key ≠ none) :
    ledger.applyAll transfers key ≠ none := by
  induction transfers generalizing ledger with
  | nil => exact (held.resolve_left List.not_mem_nil).2
  | cons transfer rest ih =>
    refine ih ?_
    rw [mem_leftKeys_cons, spentKeys_cons, List.mem_append, not_or] at held
    rcases held with (⟨created, kept⟩ | left) | ⟨⟨notSpent, kept⟩, held⟩
    · exact .inr ⟨kept, create_ne_none (.inl created)⟩
    · exact .inl left
    · refine .inr ⟨kept, create_ne_none (.inr ?_)⟩
      rwa [spend_apply, if_neg notSpent]

theorem applyAll_eq_ite (key : Key) (gone : key ∉ leftKeys transfers) :
    ledger.applyAll transfers key =
      if key ∈ spentKeys transfers ∨ key ∈ createdKeys transfers then none else ledger key := by
  induction transfers generalizing ledger with
  | nil => rfl
  | cons transfer rest ih =>
    rw [mem_leftKeys_cons, not_or, not_and_not_right] at gone
    rw [applyAll_cons, ih gone.2, spentKeys_cons, createdKeys_cons]
    by_cases later : key ∈ spentKeys rest ∨ key ∈ createdKeys rest
    · rw [if_pos later, if_pos (later.imp (List.mem_append_right _) (List.mem_append_right _))]
    · have notCreated : key ∉ transfer.created.map Prod.fst := fun created =>
        later (.inl (gone.1 created))
      rw [if_neg later, apply, create_apply_of_not_mem notCreated, spend_apply]
      simp only [not_or] at later
      simp only [List.mem_append, later, notCreated, or_false]

theorem applyAll_eq_self_iff (new : key ∈ createdKeys transfers → ledger key = none) :
    ledger.applyAll transfers key = ledger key ↔
      (key ∈ spentKeys transfers → ledger key = none) ∧ key ∉ leftKeys transfers := by
  by_cases left : key ∈ leftKeys transfers
  · have absent := new (mem_createdKeys_of_mem_leftKeys left)
    have held := @applyAll_ne_none _ _ _ ledger _ _ (.inl left)
    rw [absent]
    exact iff_of_false held fun unchanged => unchanged.2 left
  · rw [applyAll_eq_ite key left]
    split
    · next touched =>
      refine ⟨fun absent => ⟨fun _ => absent.symm, left⟩, fun unchanged => ?_⟩
      exact (touched.elim unchanged.1 new).symm
    · next untouched =>
      exact ⟨fun _ => ⟨fun spent => absurd (.inl spent) untouched, left⟩, fun _ => rfl⟩

end Ledger

end ModelOS.Data
