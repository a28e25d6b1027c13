import Mathlib

namespace ModelOS.Data

/-! Computations that stop at the first failed check. -/

variable {ε ε' α β : Type}

def require (condition : Prop) [Decidable condition] (error : ε) : Except ε Unit :=
  if condition then .ok () else .error error

def present (value : Option α) (error : ε) : Except ε α :=
  match value with
  | some value => .ok value
  | none => .error error

def describe (wrap : ε → ε') (result : Except ε α) : Except ε' α :=
  match result with
  | .ok value => .ok value
  | .error error => .error (wrap error)

@[simp] theorem require_eq_ok [Decidable condition] :
    require condition error = .ok value ↔ condition := by
  unfold require
  split <;> simp [*]

theorem require_pos [Decidable condition]
    (holds : condition) : require condition error = .ok () :=
  if_pos holds

@[simp] theorem present_eq_ok :
    present option error = .ok value ↔ option = some value := by
  cases option <;> simp [present]

@[simp] theorem describe_eq_ok :
    describe wrap result = .ok value ↔ result = .ok value := by
  cases result <;> simp [describe]

@[simp] theorem bind_eq_ok {next : α → Except ε β} {value : β} :
    (first >>= next) = .ok value ↔ ∃ middle, first = .ok middle ∧ next middle = .ok value := by
  cases first with
  | error error => simp [bind, Except.bind]
  | ok middle => simp [bind, Except.bind]

@[simp] theorem pure_eq_ok :
    (pure value : Except ε α) = .ok other ↔ value = other :=
  ⟨Except.ok.inj, congrArg _⟩

theorem forM_eq_ok {list : List α} {check : α → Except ε PUnit} :
    list.forM check = .ok value ↔ ∀ entry ∈ list, check entry = .ok () := by
  induction list with
  | nil => simp [pure, Except.pure]
  | cons head tail ih =>
    change (check head >>= fun _ => tail.forM check) = .ok value ↔ _
    rw [bind_eq_ok, List.forall_mem_cons, ← ih]
    constructor
    · rintro ⟨_, first, rest⟩
      exact ⟨first, rest⟩
    · rintro ⟨first, rest⟩
      exact ⟨(), first, rest⟩

theorem mapM_eq_ok {list : List α} {function : α → Except ε β}
    (finished : list.mapM function = .ok values) : values.length = list.length ∧
      ∀ value ∈ values, ∃ entry ∈ list, function entry = .ok value := by
  induction list generalizing values with
  | nil =>
    cases finished
    simp
  | cons head tail ih =>
    simp only [List.mapM_cons, bind_eq_ok, pure_eq_ok] at finished
    obtain ⟨first, isFirst, others, isOthers, rfl⟩ := finished
    obtain ⟨length, members⟩ := ih isOthers
    refine ⟨by simp [length], ?_⟩
    rw [List.forall_mem_cons]
    refine ⟨⟨head, .head _, isFirst⟩, fun value member => ?_⟩
    obtain ⟨entry, listed, isValue⟩ := members value member
    exact ⟨entry, List.mem_cons_of_mem head listed, isValue⟩

theorem mem_of_foldlM_eq_ok {list : List α} {body : β → α → Except ε β}
    (finished : list.foldlM body start = .ok result) :
    ∀ entry ∈ list, ∃ before after, body before entry = .ok after := by
  induction list generalizing start with
  | nil => simp
  | cons head tail ih =>
    rw [List.foldlM_cons, bind_eq_ok] at finished
    obtain ⟨middle, first, rest⟩ := finished
    intro entry member
    cases member with
    | head => exact ⟨start, middle, first⟩
    | tail _ later => exact ih rest entry later

end ModelOS.Data
