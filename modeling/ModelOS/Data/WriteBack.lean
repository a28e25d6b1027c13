import ModelOS.Data.Ledger

namespace ModelOS.Data

/-! A cached line is a coin with flags: spent, modified since it was last stored, fresh
if the store never held it. A key may also be cached as a miss. -/

structure Line (Coin : Type) where
  coin : Coin
  spent : Bool
  modified : Bool
  fresh : Bool
deriving DecidableEq

namespace Line

variable {Coin : Type}

def clean (coin : Coin) : Line Coin :=
  ⟨coin, false, false, false⟩

def created (coin : Coin) : Line Coin :=
  ⟨coin, false, true, true⟩

def spend (line : Line Coin) : Line Coin :=
  if line.spent then line else { line with spent := true, modified := true }

def held (line : Line Coin) : Option Coin :=
  if line.spent then none else some line.coin

@[simp] theorem held_spend (line : Line Coin) : line.spend.held = none := by
  rw [spend]
  split
  · next spent => rw [held, if_pos spent]
  · rfl

theorem coin_of_held {line : Line Coin} {coin : Coin} (unspent : line.held = some coin) :
    line.coin = coin := by
  rw [held] at unspent
  split at unspent
  · cases unspent
  · exact Option.some.inj unspent

end Line

/-- What a cache knows of each key: nothing, a miss, or a line. -/
abbrev Lines (Key Coin : Type) := Key → Option (Option (Line Coin))

namespace Lines

variable {Key Coin : Type} [DecidableEq Key]

def empty : Lines Key Coin := fun _ => none

/-- The ledger that a cache over a store stands for. -/
def overlay (lines : Lines Key Coin) (store : Ledger Key Coin) : Ledger Key Coin := fun key =>
  match lines key with
  | none => store key
  | some cached => cached.bind Line.held

def fetch (lines : Lines Key Coin) (store : Ledger Key Coin) (keys : List Key) :
    Lines Key Coin := fun key =>
  if key ∈ keys ∧ lines key = none then some ((store key).map Line.clean) else lines key

/-- A fresh line that is spent is forgotten, since the store never held it. -/
def spend (lines : Lines Key Coin) (key : Key) (line : Line Coin) : Lines Key Coin :=
  Function.update lines key (if line.fresh then none else some (some line.spend))

def create (lines : Lines Key Coin) (coins : List (Key × Coin)) : Lines Key Coin :=
  coins.foldl (fun lines entry =>
    Function.update lines entry.1 (some (some (Line.created entry.2)))) lines

/-- What a cached key leaves in the store when it is written back. -/
def stored (cached : Option (Line Coin)) (before : Option Coin) : Option Coin :=
  match cached with
  | none => none
  | some line =>
    if line.spent then none else if line.modified then some line.coin else before

/-- What is left of a cached key after it was written back. -/
def kept (erase : Bool) : Option (Line Coin) → Option (Option (Line Coin))
  | none => none
  | some line =>
    if erase || line.spent then none
    else if line.modified then some (some { line with modified := false, fresh := false })
    else some (some line)

/-- What is cached agrees with the store: a miss is missing there, a fresh line was never
written, and a line that was not modified is the stored one. -/
def Agrees (before : Option Coin) : Option (Option (Line Coin)) → Prop
  | none => True
  | some none => before = none
  | some (some line) =>
    (line.fresh = true → before = none) ∧ (line.modified = false → before = line.held)

def Coherent (lines : Lines Key Coin) (store : Ledger Key Coin) : Prop :=
  ∀ key, Agrees (store key) (lines key)

def storeBack (lines : Lines Key Coin) (keys : List Key) (store : Ledger Key Coin) :
    Ledger Key Coin := fun key =>
  if key ∈ keys then (lines key).elim (store key) (stored · (store key)) else store key

def keepBack (lines : Lines Key Coin) (erase : Bool) (keys : List Key) : Lines Key Coin :=
  fun key => if key ∈ keys then (lines key).bind (kept erase) else lines key

variable {lines : Lines Key Coin} {store : Ledger Key Coin}

omit [DecidableEq Key] in
theorem overlay_of_none (absent : lines key = none) :
    lines.overlay store key = store key := by
  rw [overlay, absent]

omit [DecidableEq Key] in
theorem overlay_of_some
    (present : lines key = some cached) : lines.overlay store key = cached.bind Line.held := by
  rw [overlay, present]

omit [DecidableEq Key] in
@[simp] theorem empty_over : (empty : Lines Key Coin).overlay store = store :=
  rfl

omit [DecidableEq Key] in
@[simp] theorem overlay_overlay : lines.overlay (lines.overlay store) = lines.overlay store := by
  funext key
  cases present : lines key with
  | none => rw [overlay_of_none present]
  | some cached => rw [overlay_of_some present, overlay_of_some present]

omit [DecidableEq Key] in
theorem coherent_empty : Coherent (empty : Lines Key Coin) store := fun _ => trivial

omit [DecidableEq Key] in
theorem Coherent.line (coherent : Coherent lines store) {line : Line Coin}
    (present : lines key = some (some line)) : (line.fresh = true → store key = none) ∧
      (line.modified = false → store key = line.held) := by
  have agrees := coherent key
  rwa [present] at agrees

theorem Coherent.update (coherent : Coherent lines store) (agrees : Agrees (store key) cached) :
    Coherent (Function.update lines key cached) store := by
  intro other
  rcases eq_or_ne other key with rfl | distinct
  · rw [Function.update_self]
    exact agrees
  · rw [Function.update_of_ne distinct]
    exact coherent other

@[simp] theorem overlay_fetch (keys : List Key) :
    (lines.fetch store keys).overlay store = lines.overlay store := by
  funext key
  by_cases missing : key ∈ keys ∧ lines key = none
  · have present : lines.fetch store keys key = some ((store key).map Line.clean) := if_pos missing
    rw [overlay_of_some present, overlay_of_none missing.2]
    cases store key with
    | none => rfl
    | some coin => rfl
  · have same : lines.fetch store keys key = lines key := if_neg missing
    simp only [overlay, same]

omit [DecidableEq Key] in
theorem agrees_clean (before : Option Coin) : Agrees before (some (before.map Line.clean)) := by
  cases before with
  | none => rfl
  | some coin => exact ⟨by rintro ⟨⟩, fun _ => rfl⟩

theorem Coherent.fetch (coherent : Coherent lines store) (keys : List Key) :
    Coherent (lines.fetch store keys) store := by
  intro key
  rw [Lines.fetch]
  split
  · exact agrees_clean (store key)
  · exact coherent key

theorem overlay_update_some (key : Key) (cached : Option (Line Coin)) :
    Lines.overlay (Function.update lines key (some cached)) store =
      Function.update (lines.overlay store) key (cached.bind Line.held) := by
  funext other
  rcases eq_or_ne other key with rfl | distinct
  · rw [Function.update_self]
    exact overlay_of_some (Function.update_self ..)
  · simp only [overlay, Function.update_of_ne distinct]

theorem overlay_update_none (key : Key) : Lines.overlay (Function.update lines key none) store =
      Function.update (lines.overlay store) key (store key) := by
  funext other
  rcases eq_or_ne other key with rfl | distinct
  · rw [Function.update_self]
    exact overlay_of_none (Function.update_self ..)
  · simp only [overlay, Function.update_of_ne distinct]

theorem Coherent.overlay_spend (coherent : Coherent lines store) {line : Line Coin}
    (present : lines key = some (some line)) :
    (lines.spend key line).overlay store = (lines.overlay store).spend [key] := by
  rw [Lines.spend]
  split
  · next isFresh =>
    rw [overlay_update_none, (coherent.line present).1 isFresh]
    rfl
  · rw [overlay_update_some, Option.bind_some, Line.held_spend]
    rfl

theorem Coherent.spend (coherent : Coherent lines store) {line : Line Coin}
    (present : lines key = some (some line)) : Coherent (lines.spend key line) store := by
  apply coherent.update
  split
  · trivial
  · next notFresh =>
    rw [Line.spend]
    split
    · exact coherent.line present
    · exact ⟨fun isFresh => absurd isFresh notFresh, by rintro ⟨⟩⟩

theorem overlay_create (coins : List (Key × Coin)) :
    (lines.create coins).overlay store = (lines.overlay store).create coins := by
  induction coins generalizing lines with
  | nil => rfl
  | cons entry rest ih =>
    rw [create, List.foldl_cons, ← create, ih, overlay_update_some]
    rfl

theorem Coherent.create (coherent : Coherent lines store)
    (new : ∀ key ∈ coins.map Prod.fst, store key = none) : Coherent (lines.create coins) store := by
  induction coins generalizing lines with
  | nil => exact coherent
  | cons entry rest ih =>
    rw [List.map_cons, List.forall_mem_cons] at new
    apply ih
    · apply coherent.update
      exact ⟨fun _ => new.1, by rintro ⟨⟩⟩
    · exact new.2

omit [DecidableEq Key] in
theorem stored_of_agrees
    (agrees : Agrees before (some cached)) : stored cached before = cached.bind Line.held := by
  cases cached with
  | none => rfl
  | some line =>
    rw [stored, Option.bind_some, Line.held]
    split
    · rfl
    · next notSpent =>
      split
      · rfl
      · next notModified =>
        rw [agrees.2 (Bool.eq_false_iff.mpr notModified), Line.held, if_neg notSpent]

omit [DecidableEq Key] in
theorem held_of_kept
    (remains : kept erase cached = some rest) : rest.bind Line.held = cached.bind Line.held := by
  cases cached with
  | none => cases remains
  | some line =>
    rw [kept] at remains
    split at remains
    · cases remains
    · split at remains
      · cases remains
        rfl
      · cases remains
        rfl

omit [DecidableEq Key] in
theorem agrees_kept
    (agrees : Agrees before (some cached)) : Agrees (stored cached before) (kept erase cached) := by
  cases cached with
  | none => trivial
  | some line =>
    rw [kept, stored_of_agrees agrees, Option.bind_some]
    split
    · trivial
    · split
      · exact ⟨by rintro ⟨⟩, fun _ => rfl⟩
      · next notModified =>
        have same := agrees.2 (Bool.eq_false_iff.mpr notModified)
        rw [← same]
        exact agrees

theorem storeBack_cons
    (absent : key ∉ keys) (present : lines key = some cached) :
    lines.storeBack keys (Function.update store key (stored cached (store key))) =
      lines.storeBack (key :: keys) store := by
  funext other
  rcases eq_or_ne other key with rfl | distinct
  · rw [Lines.storeBack, Lines.storeBack, if_neg absent, if_pos (.head _),
      Function.update_self, present]
    rfl
  · rw [Lines.storeBack, Lines.storeBack, Function.update_of_ne distinct]
    apply if_congr _ rfl rfl
    rw [List.mem_cons, or_iff_right distinct]

theorem Coherent.storeBack (coherent : Coherent lines store)
    (all : ∀ key, lines key ≠ none → key ∈ keys) :
    lines.storeBack keys store = lines.overlay store := by
  funext key
  cases present : lines key with
  | none =>
    rw [overlay_of_none present, Lines.storeBack, present]
    exact ite_self _
  | some cached =>
    have member : key ∈ keys := all key (by rw [present]; exact Option.some_ne_none _)
    have agrees := coherent key
    rw [present] at agrees
    rw [overlay_of_some present, Lines.storeBack, if_pos member, present]
    exact stored_of_agrees agrees

theorem Coherent.keepBack (coherent : Coherent lines store) (erase : Bool)
    (all : ∀ key, lines key ≠ none → key ∈ keys) :
    Coherent (lines.keepBack erase keys) (lines.storeBack keys store) := by
  intro key
  cases present : lines key with
  | none =>
    rw [Lines.keepBack, present]
    split
    · trivial
    · trivial
  | some cached =>
    have member : key ∈ keys := all key (by rw [present]; exact Option.some_ne_none _)
    have agrees := coherent key
    rw [present] at agrees
    rw [Lines.keepBack, if_pos member, Lines.storeBack, if_pos member, present]
    exact agrees_kept agrees

theorem overlay_keepBack (erase : Bool) (keys : List Key) (key : Key) :
    (lines.keepBack erase keys).overlay store key =
      if key ∈ keys ∧ (lines key).bind (kept erase) = none then store key
      else lines.overlay store key := by
  by_cases member : key ∈ keys
  · have value : lines.keepBack erase keys key = (lines key).bind (kept erase) := if_pos member
    cases remains : (lines key).bind (kept erase) with
    | none =>
      rw [remains] at value
      rw [overlay_of_none value, if_pos ⟨member, rfl⟩]
    | some rest =>
      obtain ⟨cached, present, remains⟩ := Option.bind_eq_some_iff.mp remains
      rw [present, Option.bind_some, remains] at value
      rw [overlay_of_some value, held_of_kept remains, if_neg (by rintro ⟨_, ⟨⟩⟩),
        overlay_of_some present]
  · have value : lines.keepBack erase keys key = lines key := if_neg member
    rw [if_neg fun both => member both.1]
    simp only [overlay, value]

end Lines

end ModelOS.Data
