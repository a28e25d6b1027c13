import Mathlib

namespace ModelOS.Spv.Lru

/-! A cache that goroutines share. Its map is used outside the lock, so each operation on
the map is a step of its own. What a call does under the lock is cut at the rounds of
`evict`. -/

/-- An element of the recency list, known by where it was allocated. -/
structure Element (K V : Type) where
  address : Nat
  key : K
  value : V
deriving DecidableEq

/-- The recency list has the front first. The size goes below zero where that of the source
wraps. -/
structure Cache (K V : Type) where
  capacity : UInt64
  size : Int
  ll : List (Element K V)
  cache : K → Option (Element K V)
  locked : Bool
  allocated : Nat

def newCache {K V : Type} (capacity : UInt64) : Cache K V :=
  ⟨capacity, 0, [], fun _ => none, false, 0⟩

inductive CacheError
  | valueSize
  | exceedsCapacity
  | existingSize
  | cannotEvict
  | allEvicted
  | elementNotFound

inductive Call (K V : Type)
  | put (key : K) (value : V)
  | get (key : K)
  | loadAndDelete (key : K)

/-- What is left of a goroutine's call. -/
inductive Frame (K V : Type)
  | idle
  | put (result : Except CacheError Bool)
  | get (result : Except CacheError V)
  | loadAndDelete (result : Option V)
  | putLoaded (key : K) (value : V) (vs : Nat) (el : Option (Element K V))
  | putEvicting (key : K) (value : V) (vs : Nat) (evicted : Bool)
  | putPushed (key : K) (el : Element K V) (evicted : Bool)
  | getLoaded (el : Element K V)
  | deleteLoaded (el : Element K V)

def Frame.returned {K V : Type} : Frame K V → Bool
  | idle | put _ | get _ | loadAndDelete _ => true
  | _ => false

/-- Whether a call is under way that changes what the cache holds. -/
def Frame.writing {K V : Type} : Frame K V → Bool
  | putLoaded .. | putEvicting .. | putPushed .. | deleteLoaded _ => true
  | _ => false

variable {K V : Type}

def moveToFront [DecidableEq K] [DecidableEq V] (ll : List (Element K V)) (el : Element K V) :
    List (Element K V) :=
  if el ∈ ll then el :: ll.erase el else ll

variable [DecidableEq K] [DecidableEq V] (size : V → Option Nat)

def start (cache : Cache K V) : Call K V → Cache K V × Frame K V
  | .put key value =>
    match size value with
    | none => (cache, .put (.error .valueSize))
    | some vs =>
      if vs > cache.capacity.toNat then (cache, .put (.error .exceedsCapacity))
      else (cache, .putLoaded key value vs (cache.cache key))
  | .get key =>
    match cache.cache key with
    | none => (cache, .get (.error .elementNotFound))
    | some el => (cache, .getLoaded el)
  | .loadAndDelete key =>
    match cache.cache key with
    | none => (cache, .loadAndDelete none)
    | some el => ({ cache with cache := Function.update cache.cache key none }, .deleteLoaded el)

/-- The next step of a call. There is none while it waits for the lock. -/
def advance (cache : Cache K V) : Frame K V → Option (Cache K V × Frame K V)
  | .putLoaded key value vs found =>
    if cache.locked then none
    else match found with
      | none => some ({ cache with locked := true }, .putEvicting key value vs false)
      | some el => match size el.value with
        | none => some (cache, .put (.error .existingSize))
        | some es =>
          some ({ cache with locked := true, ll := cache.ll.erase el, size := cache.size - es },
            .putEvicting key value vs false)
  | .putEvicting key value vs evicted =>
    -- on the errors the lock stays taken
    if vs > cache.capacity.toNat then some (cache, .put (.error .cannotEvict))
    else if (cache.capacity.toNat - cache.size) % 2 ^ 64 < vs then
      match cache.ll.getLast? with
      | none => some (cache, .put (.error .allEvicted))
      | some elr => match size elr.value with
        | none => some (cache, .put (.error .existingSize))
        | some es =>
          some ({ cache with
            size := cache.size - es
            ll := cache.ll.erase elr
            cache := Function.update cache.cache elr.key none },
            .putEvicting key value vs true)
    else
      let el : Element K V := ⟨cache.allocated, key, value⟩
      some ({ cache with
        ll := el :: cache.ll
        size := cache.size + vs
        allocated := cache.allocated + 1
        locked := false }, .putPushed key el evicted)
  | .putPushed key el evicted =>
    some ({ cache with cache := Function.update cache.cache key (some el) }, .put (.ok evicted))
  | .getLoaded el =>
    if cache.locked then none
    else some ({ cache with ll := moveToFront cache.ll el }, .get (.ok el.value))
  | .deleteLoaded el =>
    if cache.locked then none
    else match size el.value with
      | none => some (cache, .loadAndDelete none)
      | some vs => some ({ cache with ll := cache.ll.erase el, size := cache.size - vs },
        .loadAndDelete (some el.value))
  | _ => none

/-- What the goroutines can bring about, in any order, as long as every call that starts leaves
them in `order`. -/
inductive Reachable {ι : Type} [DecidableEq ι] (order : (ι → Frame K V) → Prop)
    (capacity : UInt64) : Cache K V → (ι → Frame K V) → Prop
  | new : Reachable order capacity (newCache capacity) fun _ => .idle
  | start {cache frames} (i : ι) (call : Call K V)
      (reachable : Reachable order capacity cache frames) (free : (frames i).returned = true)
      (ordered : order (Function.update frames i (start size cache call).2)) :
      Reachable order capacity (start size cache call).1
        (Function.update frames i (start size cache call).2)
  | advance {cache frames after frame} (i : ι)
      (reachable : Reachable order capacity cache frames)
      (step : advance size cache (frames i) = some (after, frame)) :
      Reachable order capacity after (Function.update frames i frame)

/-- No two writing calls overlap. -/
def Exclusive {ι : Type} (frames : ι → Frame K V) : Prop :=
  ∀ i j, (frames i).writing = true → (frames j).writing = true → i = j

/-- The map and the list hold the same elements, one for a key, and their sizes are counted. -/
structure Tallies (capacity : UInt64) (map : K → Option (Element K V))
    (ll : List (Element K V)) (total : Int) : Prop where
  held : ∀ key el, map key = some el ↔ el ∈ ll ∧ el.key = key
  keys : (ll.map (·.key)).Nodup
  sizes : ∀ el ∈ ll, ∃ es, size el.value = some es
  counted : total = (ll.map fun el => (size el.value).getD 0).sum
  fits : total ≤ capacity.toNat

def Consistent (cache : Cache K V) : Prop :=
  cache.locked = false ∧ Tallies size cache.capacity cache.cache cache.ll cache.size

/-- What holds of the cache while one goroutine stands here and no other is in a writing call. -/
def Holds (cache : Cache K V) : Frame K V → Prop
  | .putLoaded key value vs found => Consistent size cache ∧ found = cache.cache key ∧
    size value = some vs ∧ vs ≤ cache.capacity.toNat
  | .putEvicting key value vs _ => Tallies size cache.capacity
      (Function.update cache.cache key none) cache.ll cache.size ∧
    size value = some vs ∧ vs ≤ cache.capacity.toNat
  | .putPushed key el _ =>
    Consistent size { cache with cache := Function.update cache.cache key (some el) }
  | .deleteLoaded el => cache.cache el.key = none ∧
    Consistent size { cache with cache := Function.update cache.cache el.key (some el) }
  | _ => Consistent size cache

variable {size} {capacity : UInt64} {map : K → Option (Element K V)} {ll : List (Element K V)}
  {total : Int} {key : K} {el : Element K V}

namespace Tallies

theorem erase (tallies : Tallies size capacity map ll total) (found : map key = some el)
    (sized : size el.value = some es) :
    Tallies size capacity (Function.update map key none) (ll.erase el) (total - es) := by
  obtain ⟨member, rfl⟩ := (tallies.held key el).mp found
  have perm := List.perm_cons_erase member
  have sum := (perm.map fun el => (size el.value).getD 0).sum_eq
  rw [List.map_cons, List.sum_cons, sized, Option.getD_some] at sum
  refine ⟨?_, tallies.keys.sublist (List.erase_sublist.map _),
    fun other kept => tallies.sizes other (List.mem_of_mem_erase kept), ?_, ?_⟩
  · intro key other
    rw [(tallies.keys.of_map _).mem_erase_iff]
    rcases eq_or_ne key el.key with rfl | distinct
    · rw [Function.update_self]
      refine iff_of_false (by rintro ⟨⟩) ?_
      rintro ⟨⟨apart, kept⟩, same⟩
      have again := (tallies.held el.key other).mpr ⟨kept, same⟩
      exact apart (Option.some.inj (again.symm.trans found))
    · rw [Function.update_of_ne distinct, tallies.held]
      constructor
      · rintro ⟨kept, rfl⟩
        exact ⟨⟨fun same => distinct (congrArg _ same), kept⟩, rfl⟩
      · exact fun kept => ⟨kept.1.2, kept.2⟩
  · rw [tallies.counted, sum]
    push_cast
    ring
  · exact (Int.sub_le_self _ (Int.natCast_nonneg es)).trans tallies.fits

omit [DecidableEq V] in
theorem push (el : Element K V) (tallies : Tallies size capacity map ll total)
    (absent : map el.key = none) (sized : size el.value = some es)
    (fits : total + es ≤ capacity.toNat) :
    Tallies size capacity (Function.update map el.key (some el)) (el :: ll) (total + es) := by
  have apart : ∀ other ∈ ll, other.key ≠ el.key := by
    intro other member same
    rw [(tallies.held _ other).mpr ⟨member, same⟩] at absent
    cases absent
  refine ⟨?_, ?_, ?_, ?_, fits⟩
  · intro key other
    rcases eq_or_ne key el.key with rfl | distinct
    · rw [Function.update_self, Option.some_inj, List.mem_cons]
      constructor
      · rintro rfl
        exact ⟨.inl rfl, rfl⟩
      · rintro ⟨rfl | member, same⟩
        · rfl
        · exact absurd same (apart other member)
    · rw [Function.update_of_ne distinct, tallies.held, List.mem_cons]
      constructor
      · exact fun kept => ⟨.inr kept.1, kept.2⟩
      · rintro ⟨rfl | member, rfl⟩
        · exact absurd rfl distinct
        · exact ⟨member, rfl⟩
  · refine List.nodup_cons.mpr ⟨?_, tallies.keys⟩
    rintro again
    obtain ⟨other, member, same⟩ := List.mem_map.mp again
    exact apart other member same
  · exact List.forall_mem_cons.mpr ⟨⟨es, sized⟩, tallies.sizes⟩
  · rw [List.map_cons, List.sum_cons, sized, tallies.counted, Option.getD_some]
    push_cast
    ring

theorem front (tallies : Tallies size capacity map ll total) :
    Tallies size capacity map (moveToFront ll el) total := by
  unfold moveToFront
  split
  · next member =>
    have perm := List.perm_cons_erase member
    refine ⟨?_, (perm.map _).nodup_iff.mp tallies.keys, ?_, ?_, tallies.fits⟩
    · intro key other
      rw [tallies.held, perm.mem_iff]
    · intro other kept
      exact tallies.sizes other (perm.mem_iff.mpr kept)
    · rw [tallies.counted, (perm.map _).sum_eq]
  · exact tallies

end Tallies

omit [DecidableEq V] in
theorem Consistent.start {cache : Cache K V} (idle : Consistent size cache) (call : Call K V) :
    Holds size (start size cache call).1 (start size cache call).2 := by
  cases call with
  | put key value =>
    rw [Lru.start]
    split
    · exact idle
    · next vs sized =>
      split
      · exact idle
      · next fits => exact ⟨idle, rfl, sized, not_lt.mp fits⟩
  | get key =>
    rw [Lru.start]
    split <;> exact idle
  | loadAndDelete key =>
    rw [Lru.start]
    split
    · exact idle
    · next el found =>
      obtain ⟨_, rfl⟩ := (idle.2.held key el).mp found
      have restored : Function.update cache.cache el.key (some el) = cache.cache :=
        Function.update_eq_self_iff.mpr found.symm
      refine ⟨Function.update_self .., idle.1, ?_⟩
      rw [Function.update_idem, restored]
      exact idle.2

theorem Holds.advance {cache after : Cache K V} {frame next : Frame K V}
    (holds : Holds size cache frame) (step : advance size cache frame = some (after, next)) :
    Holds size after next := by
  cases frame with
  | idle | put _ | get _ | loadAndDelete _ => cases step
  | putLoaded key value vs found =>
    obtain ⟨⟨unlocked, tallies⟩, isFound, sized, fits⟩ := holds
    simp only [Lru.advance, unlocked, Bool.false_eq_true, if_false] at step
    cases found with
    | none =>
      cases step
      refine ⟨?_, sized, fits⟩
      rw [Function.update_eq_self_iff.mpr isFound]
      exact tallies
    | some el =>
      obtain ⟨es, isSize⟩ := tallies.sizes el ((tallies.held key el).mp isFound.symm).1
      simp only [isSize] at step
      cases step
      exact ⟨tallies.erase isFound.symm isSize, sized, fits⟩
  | putEvicting key value vs evicted =>
    obtain ⟨tallies, sized, fits⟩ := holds
    rw [Lru.advance, if_neg (not_lt.mpr fits)] at step
    split at step
    · next full =>
      split at step
      · next empty =>
        -- with nothing in the list the whole capacity is free
        have none := tallies.counted
        rw [List.getLast?_eq_none_iff.mp empty] at none
        have bound := cache.capacity.toNat_lt
        simp only [List.map_nil, List.sum_nil, Nat.cast_zero] at none
        omega
      · next elr last =>
        have member := List.mem_of_getLast? last
        obtain ⟨es, isSize⟩ := tallies.sizes elr member
        rw [isSize] at step
        cases step
        have rest := tallies.erase ((tallies.held _ elr).mpr ⟨member, rfl⟩) isSize
        refine ⟨?_, sized, fits⟩
        rcases eq_or_ne key elr.key with same | distinct
        · rw [same, Function.update_idem] at rest ⊢
          exact rest
        · rw [Function.update_comm distinct] at rest
          exact rest
    · next room =>
      cases step
      have below := tallies.fits
      have bound := cache.capacity.toNat_lt
      have positive := tallies.counted
      have placed := tallies.push ⟨cache.allocated, key, value⟩ (Function.update_self ..) sized
        (by omega)
      rw [Function.update_idem] at placed
      exact ⟨rfl, placed⟩
  | putPushed key el evicted =>
    cases step
    exact holds
  | getLoaded el =>
    rw [Lru.advance, if_neg (by simp [holds.1])] at step
    cases step
    exact ⟨holds.1, holds.2.front⟩
  | deleteLoaded el =>
    obtain ⟨absent, unlocked, tallies⟩ := holds
    rw [Lru.advance, if_neg (by simp [show cache.locked = false from unlocked])] at step
    have found : Function.update cache.cache el.key (some el) el.key = some el :=
      Function.update_self ..
    obtain ⟨es, isSize⟩ := tallies.sizes el ((tallies.held _ el).mp found).1
    rw [isSize] at step
    cases step
    have deleted : Function.update cache.cache el.key none = cache.cache :=
      Function.update_eq_self_iff.mpr absent.symm
    have rest := tallies.erase found isSize
    rw [Function.update_idem, deleted] at rest
    exact ⟨unlocked, rest⟩

/-- A reader that moves an element does not disturb the writer. -/
theorem Holds.moveToFront {cache : Cache K V} {frame : Frame K V}
    (holds : Holds size cache frame) (el : Element K V) :
    Holds size { cache with ll := moveToFront cache.ll el } frame := by
  cases frame with
  | putLoaded key value vs found => exact ⟨⟨holds.1.1, holds.1.2.front⟩, holds.2⟩
  | putEvicting key value vs evicted => exact ⟨holds.1.front, holds.2⟩
  | deleteLoaded removed => exact ⟨holds.1, holds.2.1, holds.2.2.front⟩
  | _ => exact ⟨holds.1, holds.2.front⟩

omit [DecidableEq V] in
theorem Holds.nonneg {frame : Frame K V} (holds : Holds size cache frame) :
    0 ≤ cache.size := by
  have counted : ∃ map, Tallies size cache.capacity map cache.ll cache.size := by
    cases frame with
    | putLoaded key value vs found => exact ⟨_, holds.1.2⟩
    | putEvicting key value vs evicted => exact ⟨_, holds.1⟩
    | deleteLoaded el => exact ⟨_, holds.2.2⟩
    | _ => exact ⟨_, holds.2⟩
  obtain ⟨map, tallies⟩ := counted
  rw [tallies.counted]
  exact Int.natCast_nonneg _

def Frame.holdsLock : Frame K V → Bool
  | putEvicting .. => true
  | _ => false

omit [DecidableEq V] in
theorem Holds.holdsLock {frame : Frame K V} (holds : Holds size cache frame)
    (locked : cache.locked = true) : frame.holdsLock = true := by
  cases frame with
  | putEvicting key value vs evicted => rfl
  | putLoaded key value vs found => cases locked.symm.trans holds.1.1
  | deleteLoaded el => cases locked.symm.trans holds.2.1
  | _ => cases locked.symm.trans holds.1

omit [DecidableEq V] in
theorem Holds.consistent {frame : Frame K V} (holds : Holds size cache frame)
    (reads : frame.writing = false) : Consistent size cache := by
  cases frame with
  | idle | put _ | get _ | loadAndDelete _ | getLoaded _ => exact holds
  | _ => cases reads

omit [DecidableEq K] [DecidableEq V] in
theorem Frame.writing_of_returned {frame : Frame K V} (returned : frame.returned = true) :
    frame.writing = false := by
  cases frame with
  | idle | put _ | get _ | loadAndDelete _ => rfl
  | _ => cases returned

omit [DecidableEq V] in
theorem start_eq_self {cache : Cache K V} {call : Call K V}
    (reads : (start size cache call).2.writing = false) : (start size cache call).1 = cache := by
  cases call with
  | put key value =>
    rw [start] at reads ⊢
    split
    · rfl
    · split <;> rfl
  | get key =>
    rw [start]
    split <;> rfl
  | loadAndDelete key =>
    rw [start] at reads ⊢
    split
    · rfl
    · next el found =>
      rw [found] at reads
      cases reads

variable {ι : Type} [DecidableEq ι]

/-- What callers of the cache rely on. -/
structure Dependable (size : V → Option Nat) (cache : Cache K V) (frames : ι → Frame K V) :
    Prop where
  consistent : (∀ i, (frames i).returned = true) → Consistent size cache
  nonneg : 0 ≤ cache.size
  released : cache.locked = true → ∃ i, (frames i).holdsLock = true

/-- There is one writer at most, and the cache is as it is left by it, or consistent. -/
structure OneWriter (size : V → Option Nat) (cache : Cache K V) (frames : ι → Frame K V) :
    Prop where
  exclusive : Exclusive frames
  writer : ∀ i, (frames i).writing = true → Holds size cache (frames i)
  quiet : (∀ i, (frames i).writing = false) → Consistent size cache

namespace OneWriter

variable {cache after : Cache K V} {frames : ι → Frame K V} {frame : Frame K V} {i : ι}

omit [DecidableEq V] [DecidableEq ι] in
theorem dependable (holds : OneWriter size cache frames) : Dependable size cache frames := by
  by_cases quiet : ∀ i, (frames i).writing = false
  · have consistent := holds.quiet quiet
    refine ⟨fun _ => consistent, @Holds.nonneg _ _ _ size cache .idle consistent, fun locked => ?_⟩
    cases locked.symm.trans consistent.1
  · simp only [not_forall, Bool.not_eq_false] at quiet
    obtain ⟨i, writing⟩ := quiet
    have here := holds.writer i writing
    refine ⟨fun returned => ?_, here.nonneg, fun locked => ⟨i, here.holdsLock locked⟩⟩
    cases writing.symm.trans (Frame.writing_of_returned (returned i))

omit [DecidableEq V] in
/-- A step of the only writer, or of a goroutine that becomes it. -/
theorem writes (exclusive : Exclusive (Function.update frames i frame))
    (quiet : ∀ j, j ≠ i → (frames j).writing = false) (here : Holds size after frame) :
    OneWriter size after (Function.update frames i frame) := by
  refine ⟨exclusive, fun j writing => ?_, fun none => ?_⟩
  · rcases eq_or_ne j i with rfl | other
    · rwa [Function.update_self]
    · rw [Function.update_of_ne other] at writing
      cases writing.symm.trans (quiet j other)
  · have reads := none i
    rw [Function.update_self] at reads
    exact here.consistent reads

omit [DecidableEq V] in
/-- A step of a goroutine that reads, before and after. -/
theorem reads (holds : OneWriter size cache frames) (before : (frames i).writing = false)
    (reads : frame.writing = false)
    (keeps : ∀ frame, Holds size cache frame → Holds size after frame) :
    OneWriter size after (Function.update frames i frame) := by
  have others : ∀ j, (Function.update frames i frame j).writing = (frames j).writing := by
    intro j
    rcases eq_or_ne j i with rfl | other
    · rw [Function.update_self, before, reads]
    · rw [Function.update_of_ne other]
  refine ⟨fun j k => ?_, fun j writing => ?_, fun none => ?_⟩
  · rw [others, others]
    exact holds.exclusive j k
  · rw [others] at writing
    have other : j ≠ i := by
      rintro rfl
      cases before.symm.trans writing
    rw [Function.update_of_ne other]
    exact keeps _ (holds.writer j writing)
  · exact keeps .idle (holds.quiet fun j => (others j).symm.trans (none j))

omit [DecidableEq V] in
theorem start (holds : OneWriter size cache frames) (free : (frames i).returned = true)
    (call : Call K V)
    (exclusive : Exclusive (Function.update frames i (start size cache call).2)) :
    OneWriter size (start size cache call).1
      (Function.update frames i (start size cache call).2) := by
  have before := Frame.writing_of_returned free
  cases writing : (Lru.start size cache call).2.writing with
  | false =>
    rw [start_eq_self writing]
    exact holds.reads before writing fun _ => id
  | true =>
    have quiet : ∀ j, j ≠ i → (frames j).writing = false := by
      intro j other
      by_contra writes
      refine other (exclusive j i ?_ ?_)
      · rwa [Function.update_of_ne other, ← Bool.not_eq_false]
      · rwa [Function.update_self]
    refine writes exclusive quiet (Consistent.start (holds.quiet fun j => ?_) call)
    rcases eq_or_ne j i with rfl | other
    · exact before
    · exact quiet j other

theorem advance (holds : OneWriter size cache frames)
    (step : advance size cache (frames i) = some (after, frame)) :
    OneWriter size after (Function.update frames i frame) := by
  cases writing : (frames i).writing with
  | true =>
    have quiet : ∀ j, j ≠ i → (frames j).writing = false := by
      intro j other
      by_contra writes
      exact other (holds.exclusive j i (Bool.not_eq_false _ ▸ writes) writing)
    refine writes ?_ quiet ((holds.writer i writing).advance step)
    have alone : ∀ j, (Function.update frames i frame j).writing = true → j = i := by
      intro j writes
      by_contra other
      rw [Function.update_of_ne other] at writes
      cases writes.symm.trans (quiet j other)
    exact fun j k first second => (alone j first).trans (alone k second).symm
  | false =>
    cases stands : frames i with
    | getLoaded el =>
      rw [stands, Lru.advance] at step
      split at step
      · cases step
      · cases step
        exact holds.reads writing rfl fun _ kept => kept.moveToFront el
    | idle | put _ | get _ | loadAndDelete _ =>
      rw [stands] at step
      cases step
    | _ =>
      rw [stands] at writing
      cases writing

end OneWriter

theorem Reachable.oneWriter {frames : ι → Frame K V}
    (reachable : Reachable size Exclusive capacity cache frames) :
    OneWriter size cache frames := by
  induction reachable with
  | new =>
    refine ⟨fun _ _ => Bool.noConfusion, fun _ => Bool.noConfusion, fun _ => ⟨rfl, ?_⟩⟩
    refine ⟨?_, List.nodup_nil, ?_, rfl, Int.natCast_nonneg _⟩
    · intro key el
      exact iff_of_false (by rintro ⟨⟩) (by rintro ⟨⟨⟩, _⟩)
    · rintro _ ⟨⟩
  | start i call _ free exclusive ih => exact ih.start free call exclusive
  | advance i _ step ih => exact ih.advance step

/-- The goroutines that share a cache can rely on it, whatever they call and in whatever order
their steps come, in every run in which no two calls of `Put` and `LoadAndDelete` overlap. -/
theorem dependable_of_exclusive (size : V → Option Nat) (capacity : UInt64) (cache : Cache K V)
    (frames : ι → Frame K V) (reachable : Reachable size Exclusive capacity cache frames) :
    Dependable size cache frames :=
  reachable.oneWriter.dependable

/-- One goroutine replaces a value while the other one, which has found the element, waits to
move it. -/
theorem dependable_reader_writer :
    ∃ (cache : Cache Bool Nat) (frames : Bool → Frame Bool Nat),
      Reachable some Exclusive 2 cache frames ∧ (∀ i, (frames i).returned = true) ∧
        cache.ll.map (·.value) = [2] ∧ Consistent some cache := by
  have empty : Reachable some Exclusive 2 (newCache 2) fun _ : Bool => (.idle : Frame Bool Nat) :=
    .new
  have put := Reachable.start false (.put true 1) empty rfl (by unfold Exclusive; decide)
  have stored := Reachable.advance false (.advance false (.advance false put rfl) rfl) rfl
  have found := Reachable.start true (.get true) stored rfl (by unfold Exclusive; decide)
  have again := Reachable.start false (.put true 2) found rfl (by unfold Exclusive; decide)
  have replaced := Reachable.advance false (.advance false (.advance false again rfl) rfl) rfl
  have moved := Reachable.advance true replaced rfl
  exact ⟨_, _, moved, by decide, rfl,
    (dependable_of_exclusive some 2 _ _ moved).consistent (by decide)⟩

/-- Two goroutines put a value of size 1 under one key into a cache of capacity 2. -/
theorem not_dependable_race : ∃ (cache : Cache Bool Nat) (frames : Bool → Frame Bool Nat),
    Reachable some (fun _ => True) 2 cache frames ∧ (∀ i, (frames i).returned = true) ∧
      ¬ Consistent some cache := by
  have empty : Reachable some (fun _ => True) 2 (newCache 2)
      fun _ : Bool => (.idle : Frame Bool Nat) := .new
  have both := Reachable.start true (.put true 1)
    (.start false (.put true 1) empty rfl trivial) rfl trivial
  have pushed := Reachable.advance false (.advance false both rfl) rfl
  have pushedAfter := Reachable.advance true (.advance true pushed rfl) rfl
  have stored := Reachable.advance false (.advance true pushedAfter rfl) rfl
  refine ⟨_, _, stored, by decide, fun consistent => ?_⟩
  have held := (consistent.2.held true ⟨1, true, 1⟩).mpr (by decide)
  revert held
  decide

end ModelOS.Spv.Lru
