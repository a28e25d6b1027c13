import Mathlib

namespace ModelOS.BlockChain

/-! Maps of bounded size in a row. A key stands in one of the maps at most. -/

structure SizedMap (Key Value : Type) where
  map : AList fun _ : Key => Value
  maxEntries : Int

section Maps

variable {Key Value : Type} [DecidableEq Key]

def SizedMap.set (sized : SizedMap Key Value) (key : Key) (value : Value) : SizedMap Key Value :=
  { sized with map := sized.map.insert key value }

def SizedMap.unset (sized : SizedMap Key Value) (key : Key) : SizedMap Key Value :=
  { sized with map := sized.map.erase key }

def SizedMap.hasRoom (sized : SizedMap Key Value) : Bool :=
  (sized.map.entries.length : Int) < sized.maxEntries

def Separate (maps : List (SizedMap Key Value)) : Prop :=
  maps.Pairwise fun first second => ∀ key ∈ first.map, key ∉ second.map

def lookupMaps (maps : List (SizedMap Key Value)) (key : Key) : Option Value :=
  maps.findSome? fun sized => sized.map.lookup key

/-- Set the key in the first map of a kind, if there is one. -/
def setFirst (chosen : SizedMap Key Value → Bool) (key : Key) (value : Value) :
    List (SizedMap Key Value) → Option (List (SizedMap Key Value))
  | [] => none
  | sized :: rest =>
    if chosen sized then some (sized.set key value :: rest)
    else (setFirst chosen key value rest).map (sized :: ·)

/-- Overwrite the key where it is, else put it into the first map with room, else into a
new map. -/
def putMaps (newMax : Int) (key : Key) (value : Value) (maps : List (SizedMap Key Value)) :
    List (SizedMap Key Value) :=
  match setFirst (fun sized => key ∈ sized.map) key value maps with
  | some maps => maps
  | none =>
    match setFirst SizedMap.hasRoom key value maps with
    | some maps => maps
    | none => maps ++ [⟨AList.singleton key value, newMax⟩]

variable {maps after : List (SizedMap Key Value)} {key : Key} {value : Value}

theorem setFirst_eq_some
    (set : setFirst chosen key value maps = some after) :
    ∃ front sized back, maps = front ++ sized :: back ∧
      after = front ++ sized.set key value :: back ∧
      chosen sized = true ∧ ∀ other ∈ front, chosen other = false := by
  induction maps generalizing after with
  | nil => cases set
  | cons sized rest ih =>
    rw [setFirst] at set
    split at set
    · next isChosen =>
      cases set
      exact ⟨[], sized, rest, rfl, rfl, isChosen, List.forall_mem_nil _⟩
    · next notChosen =>
      obtain ⟨later, setLater, rfl⟩ := Option.map_eq_some_iff.mp set
      obtain ⟨front, target, back, rfl, rfl, isChosen, before⟩ := ih setLater
      refine ⟨sized :: front, target, back, rfl, rfl, isChosen, ?_⟩
      rw [List.forall_mem_cons]
      exact ⟨Bool.eq_false_iff.mpr notChosen, before⟩

theorem setFirst_eq_none
    (unset : setFirst chosen key value maps = none) : ∀ sized ∈ maps, chosen sized = false := by
  induction maps with
  | nil => exact List.forall_mem_nil _
  | cons sized rest ih =>
    rw [setFirst] at unset
    split at unset
    · cases unset
    · next notChosen =>
      rw [List.forall_mem_cons]
      exact ⟨Bool.eq_false_iff.mpr notChosen, ih (Option.map_eq_none_iff.mp unset)⟩

theorem putMaps_cases (newMax : Int) (separate : Separate maps) :
    (∃ front sized back, maps = front ++ sized :: back ∧
      putMaps newMax key value maps = front ++ sized.set key value :: back ∧
      (∀ other ∈ front, key ∉ other.map) ∧ ∀ other ∈ back, key ∉ other.map) ∨
    (putMaps newMax key value maps = maps ++ [⟨AList.singleton key value, newMax⟩] ∧
      ∀ other ∈ maps, key ∉ other.map) := by
  rw [putMaps]
  split
  · next set =>
    obtain ⟨front, sized, back, rfl, rfl, holds, before⟩ := setFirst_eq_some set
    refine .inl ⟨front, sized, back, rfl, rfl, fun other member =>
      of_decide_eq_false (before other member), fun other member => ?_⟩
    have later := (List.pairwise_append.mp separate).2.1
    exact (List.pairwise_cons.mp later).1 other member key (of_decide_eq_true holds)
  · next unset =>
    have absent : ∀ other ∈ maps, key ∉ other.map := fun other member =>
      of_decide_eq_false (setFirst_eq_none unset other member)
    split
    · next set =>
      obtain ⟨front, sized, back, rfl, rfl, -, -⟩ := setFirst_eq_some set
      rw [List.forall_mem_append, List.forall_mem_cons] at absent
      exact .inl ⟨front, sized, back, rfl, rfl, absent.1, absent.2.2⟩
    · exact .inr ⟨rfl, absent⟩

theorem Separate.putMaps (separate : Separate maps) (newMax : Int) :
    Separate (putMaps newMax key value maps) := by
  rcases @putMaps_cases _ _ _ maps key value newMax separate with
    ⟨front, sized, back, rfl, put, before, behind⟩ | ⟨put, absent⟩
  · rw [put]
    rw [Separate, List.pairwise_append, List.pairwise_cons] at separate ⊢
    obtain ⟨inFront, ⟨ofSized, inBack⟩, between⟩ := separate
    refine ⟨inFront, ⟨fun other member held present => ?_, inBack⟩,
      fun first member second after held present => ?_⟩
    · rcases (AList.mem_insert _).mp present with rfl | old
      · exact behind other member
      · exact ofSized other member held old
    · rcases List.mem_cons.mp after with rfl | inRest
      · intro new
        rcases (AList.mem_insert _).mp new with rfl | old
        · exact before first member present
        · exact between first member sized (.head _) held present old
      · exact between first member second (.tail _ inRest) held present
  · rw [put, Separate, List.pairwise_append]
    refine ⟨separate, List.pairwise_singleton _ _, fun first member second after held present => ?_⟩
    rw [List.mem_singleton.mp after]
    intro new
    have same : held = key := by simpa [AList.singleton, AList.mem_keys] using new
    exact absent first member (same ▸ present)

theorem lookupMaps_cons (sized : SizedMap Key Value) (rest : List (SizedMap Key Value)) :
    lookupMaps (sized :: rest) key = (sized.map.lookup key).or (lookupMaps rest key) := by
  rw [lookupMaps, List.findSome?_cons]
  cases sized.map.lookup key with
  | none => rfl
  | some value => rfl

theorem lookupMaps_append (front back : List (SizedMap Key Value)) :
    lookupMaps (front ++ back) key = (lookupMaps front key).or (lookupMaps back key) :=
  List.findSome?_append

theorem lookupMaps_eq_none : lookupMaps maps key = none ↔ ∀ sized ∈ maps, key ∉ sized.map := by
  rw [lookupMaps, List.findSome?_eq_none_iff]
  exact forall₂_congr fun sized _ => AList.lookup_eq_none

theorem lookup_set (sized : SizedMap Key Value) (other : Key) :
    (sized.set key value).map.lookup other =
      if other = key then some value else sized.map.lookup other := by
  rw [SizedMap.set]
  split
  · next same =>
    subst same
    exact AList.lookup_insert _
  · next distinct => exact AList.lookup_insert_ne distinct

theorem lookup_unset (sized : SizedMap Key Value) (other : Key) :
    (sized.unset key).map.lookup other =
      if other = key then none else sized.map.lookup other := by
  rw [SizedMap.unset]
  split
  · next same =>
    subst same
    exact AList.lookup_erase _ _
  · next distinct => exact AList.lookup_erase_ne distinct

theorem lookupMaps_putMaps (separate : Separate maps) (newMax : Int) (other : Key) :
    lookupMaps (putMaps newMax key value maps) other =
      if other = key then some value else lookupMaps maps other := by
  rcases @putMaps_cases _ _ _ maps key value newMax separate with
    ⟨front, sized, back, rfl, put, before, -⟩ | ⟨put, absent⟩
  · rw [put, lookupMaps_append, lookupMaps_append, lookupMaps_cons, lookupMaps_cons, lookup_set]
    split
    · next same =>
      subst same
      rw [lookupMaps_eq_none.mpr before]
      rfl
    · rfl
  · rw [put, lookupMaps_append]
    split
    · next same =>
      subst same
      rw [lookupMaps_eq_none.mpr absent, lookupMaps_cons, ← AList.insert_empty, AList.lookup_insert]
      rfl
    · next distinct =>
      rw [lookupMaps_cons, ← AList.insert_empty, AList.lookup_insert_ne distinct,
        AList.lookup_empty]
      exact Option.or_none

abbrev Fewer (maps after : List (SizedMap Key Value)) : Prop :=
  List.Forall₂ (fun before after => ∀ key ∈ after.map, key ∈ before.map) maps after

omit [DecidableEq Key] in
theorem Fewer.exists_mem (fewer : Fewer maps after)
    (member : sized ∈ after) (held : key ∈ sized.map) : ∃ before ∈ maps, key ∈ before.map := by
  induction fewer with
  | nil => cases member
  | cons head tail ih =>
    rcases List.mem_cons.mp member with rfl | later
    · exact ⟨_, .head _, head key held⟩
    · obtain ⟨before, inMaps, present⟩ := ih later
      exact ⟨before, .tail _ inMaps, present⟩

omit [DecidableEq Key] in
theorem Separate.shrink (separate : Separate maps) (fewer : Fewer maps after) : Separate after := by
  induction fewer with
  | nil => exact List.Pairwise.nil
  | cons head tail ih =>
    rw [Separate, List.pairwise_cons] at separate ⊢
    refine ⟨fun later member held present new => ?_, ih separate.2⟩
    obtain ⟨before, inMaps, old⟩ := Fewer.exists_mem tail member new
    exact separate.1 before inMaps held (head held present) old

theorem fewer_unset (key : Key) : Fewer maps (maps.map (·.unset key)) := by
  induction maps with
  | nil => exact .nil
  | cons sized rest ih =>
    exact .cons (fun _ held => (AList.mem_erase.mp held).2) ih

theorem lookupMaps_unset (other : Key) : lookupMaps (maps.map (·.unset key)) other =
      if other = key then none else lookupMaps maps other := by
  induction maps with
  | nil => exact (ite_self _).symm
  | cons sized rest ih =>
    rw [List.map_cons, lookupMaps_cons, lookupMaps_cons, ih, lookup_unset]
    split
    · rfl
    · rfl

end Maps

structure MapSlice (Key Value : Type) where
  maps : List (SizedMap Key Value)
  nonempty : maps ≠ []
  separate : Separate maps

namespace MapSlice

variable {Key Value : Type} [DecidableEq Key]

def ofSize (maxEntries : Int) : MapSlice Key Value where
  maps := [⟨∅, maxEntries⟩]
  nonempty := List.cons_ne_nil _ _
  separate := List.pairwise_singleton _ _

def get (slice : MapSlice Key Value) (key : Key) : Option Value :=
  lookupMaps slice.maps key

def put (slice : MapSlice Key Value) (newMax : Int) (key : Key) (value : Value) :
    MapSlice Key Value where
  maps := putMaps newMax key value slice.maps
  nonempty := by
    rcases @putMaps_cases _ _ _ slice.maps key value newMax slice.separate with
      ⟨front, sized, back, -, put, -⟩ | ⟨put, -⟩
    · rw [put]
      exact List.append_ne_nil_of_right_ne_nil _ (List.cons_ne_nil _ _)
    · rw [put]
      exact List.append_ne_nil_of_right_ne_nil _ (List.cons_ne_nil _ _)
  separate := slice.separate.putMaps newMax

def delete (slice : MapSlice Key Value) (key : Key) : MapSlice Key Value where
  maps := slice.maps.map (·.unset key)
  nonempty := by
    rw [Ne, List.map_eq_nil_iff]
    exact slice.nonempty
  separate := slice.separate.shrink (fewer_unset key)

/-- Keep the first map only. -/
def deleteMaps (slice : MapSlice Key Value) : MapSlice Key Value where
  maps := slice.maps.take 1
  nonempty := by
    rw [Ne, List.take_eq_nil_iff]
    rintro (one | empty)
    · cases one
    · exact slice.nonempty empty
  separate := slice.separate.sublist (List.take_sublist _ _)

def size (slice : MapSlice Key Value) (roughMapSize : Int → UInt64) : UInt64 :=
  (slice.maps.map fun sized => roughMapSize sized.maxEntries).sum

variable (slice : MapSlice Key Value)

theorem get_put (newMax : Int) (key : Key) (value : Value) :
    (slice.put newMax key value).get = Function.update slice.get key (some value) := by
  funext other
  rw [Function.update_apply]
  exact lookupMaps_putMaps slice.separate newMax other

theorem get_delete (key : Key) : (slice.delete key).get = Function.update slice.get key none := by
  funext other
  rw [Function.update_apply]
  exact lookupMaps_unset other

theorem get_deleteMaps (empty : ∀ key, slice.get key = none) (key : Key) :
    slice.deleteMaps.get key = none := by
  apply lookupMaps_eq_none.mpr
  intro sized member
  exact lookupMaps_eq_none.mp (empty key) sized (List.mem_of_mem_take member)

end MapSlice

end ModelOS.BlockChain
