import Mathlib

namespace ModelOS.Data

/-! Encodings whose end can be told from what follows. -/

variable {α β γ : Type}

/-- Two encodings of valid values, each with something behind it, are equal only
if the values and what follows are. -/
def PrefixFreeOn (valid : α → Prop) (encode : α → List γ) : Prop :=
  ∀ ⦃first second⦄, valid first → valid second → ∀ {rest rest'},
    encode first ++ rest = encode second ++ rest' → first = second ∧ rest = rest'

namespace PrefixFreeOn

variable {valid : α → Prop} {encode : α → List γ} {first second : List α}

theorem of_width (width : Nat) (length : ∀ value, (encode value).length = width)
    (injective : ∀ ⦃first second⦄, encode first = encode second → first = second) :
    PrefixFreeOn valid encode := by
  intro first second _ _ rest rest' equality
  obtain ⟨encoded, remaining⟩ := List.append_inj equality
    ((length first).trans (length second).symm)
  exact ⟨injective encoded, remaining⟩

theorem injective (prefixFree : PrefixFreeOn valid encode) {first second : α}
    (firstValid : valid first) (secondValid : valid second)
    (equality : encode first = encode second) : first = second :=
  (prefixFree firstValid secondValid (congrArg (· ++ []) equality)).1

theorem flatMap_of_length (prefixFree : PrefixFreeOn valid encode)
    (length : first.length = second.length) (firstValid : ∀ value ∈ first, valid value)
    (secondValid : ∀ value ∈ second, valid value)
    (equality : first.flatMap encode ++ rest = second.flatMap encode ++ rest') :
    first = second ∧ rest = rest' := by
  induction first generalizing second with
  | nil =>
    cases List.length_eq_zero_iff.mp length.symm
    exact ⟨rfl, equality⟩
  | cons value values ih =>
    match second, length with
    | value' :: values', length =>
      rw [List.flatMap_cons, List.flatMap_cons, List.append_assoc, List.append_assoc] at equality
      obtain ⟨head, tail⟩ := prefixFree (firstValid value (by simp))
        (secondValid value' (by simp)) equality
      obtain ⟨values, remaining⟩ := ih (Nat.succ.inj length)
        (fun value member => firstValid value (.tail _ member))
        (fun value member => secondValid value (.tail _ member)) tail
      exact ⟨by rw [head, values], remaining⟩

theorem prefix_iff (prefixFree : PrefixFreeOn valid encode) (nonempty : ∀ value, encode value ≠ [])
    (firstValid : ∀ value ∈ first, valid value) (secondValid : ∀ value ∈ second, valid value) :
    first.flatMap encode <+: second.flatMap encode ↔ first <+: second := by
  constructor
  · rintro ⟨rest, equality⟩
    induction first generalizing second with
    | nil => exact List.nil_prefix
    | cons value values ih =>
      cases second with
      | nil =>
        rw [List.flatMap_cons, List.append_assoc, List.flatMap_nil] at equality
        exact absurd (List.append_eq_nil_iff.mp equality).1 (nonempty value)
      | cons value' values' =>
        rw [List.flatMap_cons, List.flatMap_cons, List.append_assoc] at equality
        obtain ⟨head, tail⟩ := prefixFree (firstValid value (by simp))
          (secondValid value' (by simp)) equality
        rw [head]
        exact List.cons_prefix_cons.mpr ⟨rfl, ih
          (fun value member => firstValid value (.tail _ member))
          (fun value member => secondValid value (.tail _ member)) tail⟩
  · rintro ⟨rest, equality⟩
    exact ⟨rest.flatMap encode, by rw [← equality, List.flatMap_append]⟩

theorem flatMap_injective (prefixFree : PrefixFreeOn valid encode)
    (nonempty : ∀ value, encode value ≠ []) (firstValid : ∀ value ∈ first, valid value)
    (secondValid : ∀ value ∈ second, valid value)
    (equality : first.flatMap encode = second.flatMap encode) : first = second := by
  have below := (prefixFree.prefix_iff nonempty firstValid secondValid).mp
    (equality ▸ List.prefix_rfl)
  have above := (prefixFree.prefix_iff nonempty secondValid firstValid).mp
    (equality ▸ List.prefix_rfl)
  exact below.eq_of_length_le above.length_le

theorem flatMap_field_injective {valid : β → Prop} {encode : β → List γ}
    (prefixFree : PrefixFreeOn valid encode) (nonempty : ∀ value, encode value ≠ []) (field : α → β)
    (firstValid : ∀ value ∈ first, valid (field value))
    (secondValid : ∀ value ∈ second, valid (field value))
    (equality : (first.flatMap fun value => encode (field value)) =
      second.flatMap fun value => encode (field value)) : first.map field = second.map field := by
  apply prefixFree.flatMap_injective nonempty
  · exact List.forall_mem_map.mpr firstValid
  · exact List.forall_mem_map.mpr secondValid
  · rw [List.flatMap_map, List.flatMap_map]
    exact equality

end PrefixFreeOn

theorem append_prefix_iff : front ++ back <+: whole ↔
      whole.take front.length = front ∧ back <+: whole.drop front.length := by
  constructor
  · rintro ⟨rest, equality⟩
    rw [← equality, List.append_assoc, List.take_left, List.drop_left]
    exact ⟨rfl, rest, rfl⟩
  · rintro ⟨head, rest, tail⟩
    refine ⟨rest, ?_⟩
    rw [List.append_assoc, tail]
    nth_rewrite 1 [← head]
    exact List.take_append_drop _ _

end ModelOS.Data
