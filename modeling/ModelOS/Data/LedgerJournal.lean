import ModelOS.Data.Ledger

namespace ModelOS.Data

namespace Ledger

/-! A run that does not look whether a coin is spent records the coin last put at each
key it spends; undoing it leaves at each key what the first transfer that touched it
found. -/

variable {Key Coin : Type} [DecidableEq Key]

inductive Touch
  | untouched
  | spent
  | created
deriving DecidableEq

def Touch.pick {α : Type} (touch : Touch) (untouched spent created : α) : α :=
  match touch with
  | .untouched => untouched
  | .spent => spent
  | .created => created

/-- What happens to a key first. -/
def firstTouch : List (Transfer Key Coin) → Key → Touch
  | [], _ => .untouched
  | transfer :: rest, key =>
    if key ∈ transfer.spent then .spent
    else if key ∈ transfer.created.map Prod.fst then .created
    else firstTouch rest key

def record : List (Transfer Key Coin) → (last : Ledger Key Coin) → Option (List Coin)
  | [], _ => some []
  | transfer :: rest, last => do
      let coins ← transfer.spent.mapM last
      let others ← record rest (last.create transfer.created)
      return coins ++ others

variable {last ledger : Ledger Key Coin} {transfer : Transfer Key Coin}
  {transfers more : List (Transfer Key Coin)} {coins : List Coin}

omit [DecidableEq Key] in
theorem length_of_mapM {keys : List Key} (recorded : keys.mapM last = some coins) :
    coins.length = keys.length := by
  induction keys generalizing coins with
  | nil =>
    cases recorded
    rfl
  | cons key keys ih =>
    rw [List.mapM_cons] at recorded
    simp only [bind, Option.bind_eq_some_iff] at recorded
    obtain ⟨coin, _, others, rest, same⟩ := recorded
    cases same
    exact congrArg Nat.succ (ih rest)

omit [DecidableEq Key] in
theorem zip_of_mapM {keys : List Key} (recorded : keys.mapM last = some coins) :
    ∀ entry ∈ keys.zip coins, last entry.1 = some entry.2 := by
  induction keys generalizing coins with
  | nil => rintro _ ⟨⟩
  | cons key keys ih =>
    rw [List.mapM_cons] at recorded
    simp only [bind, Option.bind_eq_some_iff] at recorded
    obtain ⟨coin, held, others, rest, same⟩ := recorded
    cases same
    intro entry member
    cases member with
    | head => exact held
    | tail _ later => exact ih rest entry later

theorem create_apply_of_agree
    (agree : ∀ entry ∈ entries, last entry.1 = some entry.2) (member : key ∈ entries.map Prod.fst) :
    ledger.create entries key = last key := by
  induction entries using List.reverseRecOn with
  | nil => cases member
  | append_singleton entries entry ih =>
    have here : ledger.create (entries ++ [entry]) =
        Function.update (ledger.create entries) entry.1 (some entry.2) := by
      rw [create, List.foldl_append]
      rfl
    rw [here]
    rcases eq_or_ne key entry.1 with rfl | distinct
    · rw [Function.update_self, agree entry (by simp)]
    · rw [Function.update_of_ne distinct]
      apply ih
      · intro other member
        exact agree other (List.mem_append_left _ member)
      · rw [List.map_append, List.mem_append] at member
        rcases member with earlier | here
        · exact earlier
        · exact absurd (List.mem_singleton.mp here) distinct

theorem undo_apply_of_mapM (recorded : transfer.spent.mapM last = some coins) (key : Key) :
    ledger.undo transfer coins key =
      if key ∈ transfer.spent then last key
      else if key ∈ transfer.created.map Prod.fst then none
      else ledger key := by
  have keys : (transfer.spent.zip coins).reverse.map Prod.fst = transfer.spent.reverse := by
    rw [List.map_reverse, List.map_fst_zip (Nat.le_of_eq (length_of_mapM recorded).symm)]
  rw [undo]
  split
  · next spent =>
    apply create_apply_of_agree
    · intro entry member
      exact zip_of_mapM recorded entry (List.mem_reverse.mp member)
    · rw [keys]
      exact List.mem_reverse.mpr spent
  · next notSpent =>
    rw [create_apply_of_not_mem (by rwa [keys, List.mem_reverse]), spend_apply]

theorem undoAll_apply_of_record (recorded : record transfers last = some coins) (key : Key) :
    ledger.undoAll transfers coins key =
      (firstTouch transfers key).pick (ledger key) (last key) none := by
  induction transfers generalizing last coins with
  | nil => rfl
  | cons transfer rest ih =>
    simp only [record, bind, Option.bind_eq_some_iff] at recorded
    obtain ⟨first, spent, others, later, same⟩ := recorded
    cases same
    have count := length_of_mapM spent
    rw [undoAll, ← count, List.drop_left, List.take_left, undo_apply_of_mapM spent,
      ih later, firstTouch]
    split
    · rfl
    · split
      · rfl
      · next notCreated =>
        rw [create_apply_of_not_mem notCreated]

theorem length_of_record (recorded : record transfers last = some coins) :
    coins.length = (transfers.map fun transfer => transfer.spent.length).sum := by
  induction transfers generalizing last coins with
  | nil =>
    cases recorded
    rfl
  | cons transfer rest ih =>
    simp only [record, bind, Option.bind_eq_some_iff] at recorded
    obtain ⟨first, spent, others, later, same⟩ := recorded
    cases same
    rw [List.length_append, length_of_mapM spent, ih later, List.map_cons, List.sum_cons]

def lastAll (transfers : List (Transfer Key Coin)) (last : Ledger Key Coin) : Ledger Key Coin :=
  transfers.foldl (fun last transfer => last.create transfer.created) last

theorem lastAll_apply_of_untouched (untouched : firstTouch transfers key = .untouched) :
    last.lastAll transfers key = last key := by
  induction transfers generalizing last with
  | nil => rfl
  | cons transfer rest ih =>
    rw [firstTouch] at untouched
    split at untouched
    · cases untouched
    · split at untouched
      · cases untouched
      · next notCreated =>
        rw [lastAll, List.foldl_cons, ← lastAll, ih untouched, create_apply_of_not_mem notCreated]

theorem mem_of_firstTouch (created : firstTouch transfers key = .created) :
    key ∈ transfers.flatMap fun transfer => transfer.created.map Prod.fst := by
  induction transfers with
  | nil => cases created
  | cons transfer rest ih =>
    rw [List.flatMap_cons, List.mem_append]
    rw [firstTouch] at created
    split at created
    · cases created
    · split at created
      · next member => exact .inl member
      · exact .inr (ih created)

theorem applyAll_apply_of_untouched
    (untouched : firstTouch transfers key = .untouched) :
    ledger.applyAll transfers key = ledger key := by
  induction transfers generalizing ledger with
  | nil => rfl
  | cons transfer rest ih =>
    rw [firstTouch] at untouched
    split at untouched
    · cases untouched
    · next notSpent =>
      split at untouched
      · cases untouched
      · next notCreated =>
        rw [applyAll_cons, ih untouched, apply_of_not_mem notSpent notCreated]

theorem firstTouch_append (key : Key) : firstTouch (transfers ++ more) key =
      (firstTouch transfers key).pick (firstTouch more key) .spent .created := by
  induction transfers with
  | nil => rfl
  | cons transfer rest ih =>
    rw [List.cons_append, firstTouch, firstTouch, ih]
    split
    · rfl
    · split
      · rfl
      · rfl

end Ledger

end ModelOS.Data
