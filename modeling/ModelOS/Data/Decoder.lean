import ModelOS.Data.Bytes

namespace ModelOS.Data

/-! Decoders that place what they read into a shared buffer. A decoder is a tree of its
reads, so that one program has both the run with a buffer of fixed capacity and the
account of how much buffer it asks for. -/

inductive Decoder (ε α : Type) : Type
  | done (value : α)
  | fail (error : ε)
  /-- Read exactly `size` bytes; the two errors are for an empty and for a cut
  off remainder. -/
  | readFull (size : Nat) (eof unexpectedEOF : ε) (next : Bytes → Decoder ε α)
  | claim (size : Nat) (next : Decoder ε α)
  | borrow (next : Decoder ε α)

inductive Outcome (ε α : Type) : Type
  | done (value : α) (slab : Nat) (rest : Bytes)
  | failed (error : ε)
  | panicked
deriving DecidableEq

namespace Decoder

variable {ε ε' α β : Type}

protected def bind : Decoder ε α → (α → Decoder ε β) → Decoder ε β
  | done value, next => next value
  | fail error, _ => fail error
  | readFull size eof unexpectedEOF rest, next =>
    readFull size eof unexpectedEOF fun bytes => (rest bytes).bind next
  | claim size rest, next => claim size (rest.bind next)
  | borrow rest, next => borrow (rest.bind next)

instance : Monad (Decoder ε) where
  pure := done
  bind := Decoder.bind

def mapError (wrap : ε → ε') : Decoder ε α → Decoder ε' α
  | done value => done value
  | fail error => fail (wrap error)
  | readFull size eof unexpectedEOF next =>
    readFull size (wrap eof) (wrap unexpectedEOF) fun bytes =>
      (next bytes).mapError wrap
  | claim size next => claim size (next.mapError wrap)
  | borrow next => borrow (next.mapError wrap)

def ensure (condition : Prop) [Decidable condition] (error : ε) : Decoder ε Unit :=
  if condition then done () else fail error

def repeatTimes (decoder : Decoder ε α) : Nat → Decoder ε (List α)
  | 0 => done []
  | count + 1 => do
      let value ← decoder
      let values ← repeatTimes decoder count
      return value :: values

/-- Slicing beyond the end of the buffer is a run-time panic. -/
def run (capacity : Nat) : Decoder ε α → (slab : Nat) → Bytes → Outcome ε α
  | done value, slab, input => .done value slab input
  | fail error, _, _ => .failed error
  | readFull size eof unexpectedEOF next, slab, input =>
    if size ≤ input.length then
      run capacity (next (input.take size)) slab (input.drop size)
    else if input.length = 0 then .failed eof
    else .failed unexpectedEOF
  | claim size next, slab, input =>
    if size ≤ slab then run capacity next (slab - size) input else .panicked
  | borrow next, _, input => run capacity next capacity input

/-- The largest part of one buffer that is asked for, when every slice is
granted; `used` is what has been taken from the current buffer. -/
def peak : Decoder ε α → (used : Nat) → Bytes → Nat
  | done _, _, _ => 0
  | fail _, _, _ => 0
  | readFull size _ _ next, used, input =>
    if size ≤ input.length then
      peak (next (input.take size)) used (input.drop size)
    else 0
  | claim size next, used, input =>
    max (used + size) (peak next (used + size) input)
  | borrow next, _, input => peak next 0 input

variable {capacity slab : Nat} {first decoder : Decoder ε α} {next : α → Decoder ε β}
  {input rest : Bytes}

theorem run_eq_panicked_iff (fits : used ≤ capacity) (decoder : Decoder ε α)
    (input : Bytes) : decoder.run capacity (capacity - used) input = .panicked ↔
      capacity < decoder.peak used input := by
  induction decoder generalizing used input with
  | done value => simp [run, peak]
  | fail error => simp [run, peak]
  | readFull size eof unexpectedEOF next ih =>
    simp only [run, peak]
    by_cases enough : size ≤ input.length
    · rw [if_pos enough, if_pos enough]
      exact ih _ fits _
    · rw [if_neg enough, if_neg enough]
      split <;> simp
  | claim size next ih =>
    simp only [run, peak, lt_max_iff]
    by_cases granted : size ≤ capacity - used
    · rw [if_pos granted, Nat.sub_sub, ih (by omega)]
      constructor
      · exact .inr
      · rintro (exceeded | exceeded)
        · omega
        · exact exceeded
    · rw [if_neg granted]
      simp only [true_iff]
      exact .inl (by omega)
  | borrow next ih =>
    simp only [run, peak]
    exact ih (Nat.zero_le _) input

theorem used_le_peak (fits : used ≤ capacity)
    (finished : decoder.run capacity (capacity - used) input = .done value slab' rest) :
    capacity - slab' ≤ max used (decoder.peak used input) := by
  induction decoder generalizing used input with
  | done result =>
    injection finished with _ slabs
    omega
  | fail error => cases finished
  | readFull size eof unexpectedEOF next ih =>
    simp only [run] at finished
    split at finished
    · next enough =>
      rw [peak, if_pos enough]
      exact ih _ fits finished
    · split at finished <;> cases finished
  | claim size next ih =>
    simp only [run] at finished
    split at finished
    · rw [Nat.sub_sub] at finished
      have later := ih (by omega) finished
      rw [peak]
      omega
    · cases finished
  | borrow next ih =>
    have later := @ih input 0 (Nat.zero_le _) finished
    rw [peak]
    omega

@[simp] theorem run_pure (capacity slab : Nat) (value : α) (input : Bytes) :
    (pure value : Decoder ε α).run capacity slab input = .done value slab input :=
  rfl

theorem run_bind (capacity slab : Nat) (first : Decoder ε α)
    (next : α → Decoder ε β) (input : Bytes) : (first >>= next).run capacity slab input =
      match first.run capacity slab input with
      | .done value slab rest => (next value).run capacity slab rest
      | .failed error => .failed error
      | .panicked => .panicked := by
  change (first.bind next).run capacity slab input = _
  induction first generalizing slab input with
  | done value => rfl
  | fail error => rfl
  | readFull size eof unexpectedEOF rest ih =>
    simp only [Decoder.bind, run]
    split
    · exact ih _ _ _
    · split <;> rfl
  | claim size rest ih =>
    simp only [Decoder.bind, run]
    split
    · exact ih _ _
    · rfl
  | borrow rest ih => exact ih _ _

theorem run_bind_done
    (finished : first.run capacity slab input = .done value slab' rest) :
    (first >>= next).run capacity slab input = (next value).run capacity slab' rest := by
  rw [run_bind, finished]

theorem run_bind_panicked (panicked : first.run capacity slab input = .panicked) :
    (first >>= next).run capacity slab input = .panicked := by
  rw [run_bind, panicked]

theorem run_bind_eq_done
    (finished : (first >>= next).run capacity slab input = .done value slab' rest) :
    ∃ middle slab'' remaining, first.run capacity slab input = .done middle slab'' remaining ∧
        (next middle).run capacity slab'' remaining = .done value slab' rest := by
  rw [run_bind] at finished
  split at finished
  · rename_i middle slab'' remaining started
    exact ⟨middle, slab'', remaining, started, finished⟩
  · cases finished
  · cases finished

theorem run_ensure [Decidable condition] (holds : condition) :
    (ensure condition error).run capacity slab input = .done () slab input := by
  rw [ensure, if_pos holds]
  rfl

theorem run_readFull_append {next : Bytes → Decoder ε α} (rest : Bytes)
    (length : front.length = size) :
    (readFull size eof unexpectedEOF next).run capacity slab (front ++ rest) =
      (next front).run capacity slab rest := by
  subst length
  simp [run]

theorem run_mapError (capacity slab : Nat) (decoder : Decoder ε α) (wrap : ε → ε') (input : Bytes) :
    (decoder.mapError wrap).run capacity slab input =
      match decoder.run capacity slab input with
      | .done value slab rest => .done value slab rest
      | .failed error => .failed (wrap error)
      | .panicked => .panicked := by
  induction decoder generalizing slab input with
  | done value => rfl
  | fail error => rfl
  | readFull size eof unexpectedEOF next ih =>
    simp only [run, mapError]
    split
    · exact ih _ _ _
    · split <;> rfl
  | claim size next ih =>
    simp only [run, mapError]
    split
    · exact ih _ _
    · rfl
  | borrow next ih => exact ih _ _

theorem run_repeatTimes {encode : α → Bytes} {size : α → Nat} {values : List α}
    (reads : ∀ value ∈ values, ∀ {slab rest}, size value ≤ slab →
      decoder.run capacity slab (encode value ++ rest) =
        .done value (slab - size value) rest) (granted : (values.map size).sum ≤ slab) :
    (decoder.repeatTimes values.length).run capacity slab (values.flatMap encode ++ rest) =
      .done values (slab - (values.map size).sum) rest := by
  induction values generalizing slab with
  | nil => rfl
  | cons value values ih =>
    rw [List.map_cons, List.sum_cons] at granted ⊢
    rw [List.flatMap_cons, List.append_assoc, List.length_cons, repeatTimes,
      run_bind_done (reads value List.mem_cons_self (by omega)),
      run_bind_done (ih (fun value member =>
        reads value (.tail _ member)) (by omega)),
      Nat.sub_sub]
    rfl

theorem mem_of_run_repeatTimes
    (finished : (decoder.repeatTimes count).run capacity slab input = .done values slab' rest) :
    ∀ value ∈ values, ∃ before after input rest,
      decoder.run capacity before input = .done value after rest := by
  induction count generalizing slab slab' input rest values with
  | zero =>
    injection finished with same
    rw [← same]
    exact List.forall_mem_nil _
  | succ count ih =>
    obtain ⟨head, after, remaining, first, others⟩ := run_bind_eq_done finished
    obtain ⟨tail, last, final, repeated, ended⟩ := run_bind_eq_done others
    injection ended with same
    rw [← same]
    exact List.forall_mem_cons.mpr ⟨⟨slab, after, input, remaining, first⟩, ih repeated⟩

def Decodes (capacity : Nat) (decoder : Decoder ε α) (bytes : Bytes) (value : α) : Prop :=
  ∀ slab rest, ∃ slab', decoder.run capacity slab (bytes ++ rest) = .done value slab' rest

namespace Decodes

variable {capacity : Nat}

variable {decoder : Decoder ε α} {bytes : Bytes} {value : α}

theorem of_run
    (reads : ∀ {slab rest}, decoder.run capacity slab (bytes ++ rest) = .done value slab rest) :
    decoder.Decodes capacity bytes value :=
  fun slab _ => ⟨slab, reads⟩

theorem pure (value : α) : (Pure.pure value : Decoder ε α).Decodes capacity [] value :=
  fun slab _ => ⟨slab, rfl⟩

theorem bind {first : Decoder ε α} {next : α → Decoder ε β} {front back : Bytes} {result : β}
    (head : first.Decodes capacity front value) (tail : (next value).Decodes capacity back result) :
    (first >>= next).Decodes capacity (front ++ back) result := by
  intro slab rest
  obtain ⟨middle, head⟩ := head slab (back ++ rest)
  obtain ⟨after, tail⟩ := tail middle rest
  exact ⟨after, by rw [List.append_assoc, run_bind_done head, tail]⟩

theorem map (decodes : decoder.Decodes capacity bytes value) (wrap : α → β) :
    (decoder >>= fun value => Pure.pure (wrap value)).Decodes capacity bytes (wrap value) := by
  have wrapped := @bind _ _ _ capacity _ decoder
    (fun value => Pure.pure (wrap value)) _ _ _ decodes (pure (wrap value))
  rwa [List.append_nil] at wrapped

theorem ensure [Decidable condition] {next : Unit → Decoder ε α}
    (holds : condition) (decodes : (next ()).Decodes capacity bytes value) :
    (Decoder.ensure condition error >>= next).Decodes capacity bytes value := by
  intro slab rest
  rw [run_bind_done (run_ensure holds)]
  exact decodes slab rest

theorem mapError (decodes : decoder.Decodes capacity bytes value) :
    (decoder.mapError wrap).Decodes capacity bytes value := by
  intro slab rest
  obtain ⟨after, finished⟩ := decodes slab rest
  exact ⟨after, by rw [run_mapError, finished]⟩

theorem repeatTimes
    (decodes : List.Forall₂ (decoder.Decodes capacity) fronts values) :
    (decoder.repeatTimes values.length).Decodes capacity fronts.flatten values := by
  induction decodes with
  | nil => exact pure []
  | cons head _ ih => exact head.bind (ih.map (_ :: ·))

theorem repeatTimes_encoded {encode : α → Bytes} {values : List α}
    (decodes : ∀ value ∈ values, decoder.Decodes capacity (encode value) value) :
    (decoder.repeatTimes values.length).Decodes capacity (values.flatMap encode) values := by
  rw [List.flatMap_def]
  apply repeatTimes
  rw [List.forall₂_map_left_iff]
  exact List.forall₂_same.mpr decodes

end Decodes

theorem run_local
    (finished : decoder.run capacity slab input = .done value slab' rest) :
    ∃ front, input = front ++ rest ∧ ∀ other,
      decoder.run capacity slab (front ++ other) = .done value slab' other := by
  induction decoder generalizing slab input with
  | done result =>
    injection finished with same slabs rests
    subst same slabs rests
    exact ⟨[], rfl, fun other => rfl⟩
  | fail error => cases finished
  | readFull size eof unexpectedEOF next ih =>
    simp only [run] at finished
    split at finished
    · rename_i enough
      obtain ⟨front, split, again⟩ := ih _ finished
      refine ⟨input.take size ++ front, ?_, ?_⟩
      · rw [List.append_assoc, ← split, List.take_append_drop]
      · intro other
        rw [List.append_assoc, run_readFull_append (front ++ other)
          (List.length_take_of_le enough), again]
    · split at finished <;> cases finished
  | claim size next ih =>
    simp only [run] at finished
    split at finished
    · rename_i granted
      obtain ⟨front, split, again⟩ := ih finished
      refine ⟨front, split, fun other => ?_⟩
      rw [run, if_pos granted, again]
    · cases finished
  | borrow next ih => exact ih finished

def Parses (decoder : Decoder ε α) (relation : Bytes → α → Prop) : Prop :=
  ∀ ⦃capacity slab slab' : Nat⦄ ⦃input rest : Bytes⦄ ⦃value : α⦄,
    decoder.run capacity slab input = .done value slab' rest →
      ∃ front, input = front ++ rest ∧ relation front value

namespace Parses

variable {relation : Bytes → α → Prop} {result : Bytes → β → Prop}

theorem pure (holds : relation [] value) :
    (Pure.pure value : Decoder ε α).Parses relation := by
  intro capacity slab slab' input rest value' finished
  injection finished with same slabs rests
  rw [← same, rests]
  exact ⟨[], rfl, holds⟩

theorem fail : (Decoder.fail error : Decoder ε α).Parses relation := by
  rintro _ _ _ _ _ _ ⟨⟩

theorem readFull :
    (Decoder.readFull size eof unexpectedEOF .done).Parses fun front bytes =>
      front = bytes ∧ bytes.length = size := by
  intro capacity slab slab' input rest value finished
  simp only [run] at finished
  split at finished
  · rename_i enough
    injection finished with same slabs rests
    subst same rests
    exact ⟨input.take size, (List.take_append_drop size input).symm, rfl,
      List.length_take_of_le enough⟩
  · split at finished <;> cases finished

variable {decoder : Decoder ε α}

theorem claim (parses : decoder.Parses relation) :
    (Decoder.claim size decoder).Parses relation := by
  intro capacity slab slab' input rest value finished
  simp only [run] at finished
  split at finished
  · exact parses finished
  · cases finished

theorem borrow (parses : decoder.Parses relation) : (Decoder.borrow decoder).Parses relation :=
  fun _ _ _ _ _ _ finished => parses finished

theorem bind {first : Decoder ε α} {next : α → Decoder ε β} (head : first.Parses relation)
    (tail : ∀ front value, relation front value →
      (next value).Parses fun back final => result (front ++ back) final) :
    (first >>= next).Parses result := by
  intro capacity slab slab' input rest value finished
  rw [run_bind] at finished
  split at finished
  · rename_i middle slab'' remaining started
    obtain ⟨front, rfl, holds⟩ := head started
    obtain ⟨back, rfl, final⟩ := tail front middle holds finished
    exact ⟨front ++ back, (List.append_assoc _ _ _).symm, final⟩
  · cases finished
  · cases finished

theorem ensure [Decidable condition] {next : Unit → Decoder ε β}
    (tail : condition → (next ()).Parses result) :
    (Decoder.ensure condition error >>= next).Parses result := by
  by_cases holds : condition
  · rw [Decoder.ensure, if_pos holds]
    exact tail holds
  · rw [Decoder.ensure, if_neg holds]
    exact fail

theorem imp (parses : decoder.Parses relation)
    (implies : ∀ front value, relation front value → other front value) : decoder.Parses other := by
  intro capacity slab slab' input rest value finished
  obtain ⟨front, split, holds⟩ := parses finished
  exact ⟨front, split, implies front value holds⟩

theorem mapError (parses : decoder.Parses relation) :
    (decoder.mapError wrap).Parses relation := by
  intro capacity slab slab' input rest value finished
  rw [run_mapError] at finished
  split at finished
  · rename_i value' slab'' rest' started
    injection finished with same slabs rests
    subst same rests
    exact parses started
  · cases finished
  · cases finished

theorem repeatTimes (parses : decoder.Parses relation) (count : Nat) :
    (decoder.repeatTimes count).Parses fun front values =>
      ∃ fronts, front = fronts.flatten ∧ List.Forall₂ relation fronts values ∧
        values.length = count := by
  induction count with
  | zero => exact pure ⟨[], rfl, .nil, rfl⟩
  | succ count ih =>
    refine parses.bind fun front value head => ih.bind
      fun back values tail => pure ?_
    obtain ⟨fronts, rfl, related, length⟩ := tail
    refine ⟨front :: fronts, ?_, .cons head related, ?_⟩
    · rw [List.append_nil, List.flatten_cons]
    · rw [List.length_cons, length]

theorem repeatTimes_encoded {encode : α → Bytes} {property : α → Prop}
    (parses : decoder.Parses fun front value => front = encode value ∧ property value)
    (count : Nat) :
    (decoder.repeatTimes count).Parses fun front values =>
      front = values.flatMap encode ∧ values.length = count ∧ ∀ value ∈ values, property value := by
  refine (parses.repeatTimes count).imp fun front values read => ?_
  obtain ⟨fronts, rfl, related, length⟩ := read
  refine ⟨?_, length, ?_⟩
  · clear length
    induction related with
    | nil => rfl
    | cons head _ ih =>
      rw [List.flatten_cons, List.flatMap_cons, ih, head.1]
  · clear length
    induction related with
    | nil => exact List.forall_mem_nil _
    | cons head _ ih => exact List.forall_mem_cons.mpr ⟨head.2, ih⟩

end Parses

end Decoder

end ModelOS.Data
