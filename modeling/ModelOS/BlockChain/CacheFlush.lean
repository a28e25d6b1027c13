import ModelOS.BlockChain.CacheLines

namespace ModelOS.BlockChain

open Data Wire

def ChainDb.consistentAt (db : ChainDb) (utxos : Ledger OutPoint SpentTxOut)
    (hash : Hash) : ChainDb :=
  { db with utxos, utxoStateConsistency := some hash }

namespace UtxoCache

/-! The entries are handled one after the other until a write fails; the transaction's
side of the loop does not depend on the maps. -/

abbrev Entries := List (Sigma fun _ : OutPoint => Option CacheEntry)

/-- The entries that are handled before a write fails, and the transaction. -/
def writeAll : Entries → DbTx → List OutPoint × Except CacheError DbTx
  | [], dbTx => ([], .ok dbTx)
  | ⟨outPoint, entry⟩ :: rest, dbTx =>
    match writeEntry outPoint entry dbTx with
    | .error error => ([], .error error)
    | .ok dbTx =>
      let (handled, result) := writeAll rest dbTx
      (outPoint :: handled, result)

variable {todo : Entries} {dbTx after : DbTx} {eraseCache : Bool} {map : EntryMap}

theorem writeAll_cons_error (first : writeEntry entry.1 entry.2 dbTx = .error error) :
    writeAll (entry :: todo) dbTx = ([], .error error) := by
  rw [writeAll, first]

theorem writeAll_cons_ok
    (first : writeEntry entry.1 entry.2 dbTx = .ok after) : writeAll (entry :: todo) dbTx =
      (entry.1 :: (writeAll todo after).1, (writeAll todo after).2) := by
  rw [writeAll, first]

theorem mem_of_mem_writeAll
    (handled : outPoint ∈ (writeAll todo dbTx).1) : outPoint ∈ todo.map Sigma.fst := by
  induction todo generalizing dbTx with
  | nil => cases handled
  | cons entry rest ih =>
    cases first : writeEntry entry.1 entry.2 dbTx with
    | error error =>
      rw [writeAll_cons_error first] at handled
      cases handled
    | ok middle =>
      rw [writeAll_cons_ok first] at handled
      rcases List.mem_cons.mp handled with rfl | later
      · exact .head _
      · exact .tail _ (ih later)

theorem handled_of_ok (written : (writeAll todo dbTx).2 = .ok after) :
    (writeAll todo dbTx).1 = todo.map Sigma.fst := by
  induction todo generalizing dbTx with
  | nil => rfl
  | cons entry rest ih =>
    cases first : writeEntry entry.1 entry.2 dbTx with
    | error error =>
      rw [writeAll_cons_error first] at written
      cases written
    | ok middle =>
      rw [writeAll_cons_ok first] at written ⊢
      exact congrArg _ (ih written)

theorem writeAll_append_of_error
    (failed : (writeAll front dbTx).2 = .error error) :
    writeAll (front ++ back) dbTx = writeAll front dbTx := by
  induction front generalizing dbTx with
  | nil => cases failed
  | cons entry rest ih =>
    rw [List.cons_append]
    cases first : writeEntry entry.1 entry.2 dbTx with
    | error error => rw [writeAll_cons_error first, writeAll_cons_error first]
    | ok middle =>
      rw [writeAll_cons_ok first] at failed
      rw [writeAll_cons_ok first, writeAll_cons_ok first, ih failed]

theorem writeAll_append_of_ok
    (written : (writeAll front dbTx).2 = .ok after) : writeAll (front ++ back) dbTx =
      (front.map Sigma.fst ++ (writeAll back after).1, (writeAll back after).2) := by
  induction front generalizing dbTx with
  | nil =>
    cases written
    rfl
  | cons entry rest ih =>
    cases first : writeEntry entry.1 entry.2 dbTx with
    | error error =>
      rw [writeAll_cons_error first] at written
      cases written
    | ok middle =>
      rw [writeAll_cons_ok first] at written
      rw [List.cons_append, writeAll_cons_ok first, ih written]
      rfl

theorem writeEntries_snd : (writeEntries eraseCache todo map dbTx).2 = (writeAll todo dbTx).2 := by
  induction todo generalizing map dbTx with
  | nil => rfl
  | cons entry rest ih =>
    cases first : writeEntry entry.1 entry.2 dbTx with
    | error error => rw [writeEntries, first, writeAll_cons_error first]
    | ok middle =>
      rw [writeEntries, first, writeAll_cons_ok first]
      exact ih

theorem lookup_keepEntry (outPoint : OutPoint) (entry : Option CacheEntry) (key : OutPoint) :
    (keepEntry eraseCache outPoint entry map).lookup key =
      if key = outPoint then Lines.kept eraseCache entry else map.lookup key := by
  rw [keepEntry]
  split
  · next remains =>
    rw [remains]
    split
    · next same =>
      subst same
      exact AList.lookup_erase _ _
    · next distinct => exact AList.lookup_erase_ne distinct
  · next kept remains =>
    rw [remains]
    split
    · next same =>
      subst same
      exact AList.lookup_insert _
    · next distinct => exact AList.lookup_insert_ne distinct

theorem lookup_writeEntries (nodup : (todo.map Sigma.fst).Nodup)
    (present : ∀ entry ∈ todo, map.lookup entry.1 = some entry.2) (key : OutPoint) :
    (writeEntries eraseCache todo map dbTx).1.lookup key =
      if key ∈ (writeAll todo dbTx).1 then (map.lookup key).bind (Lines.kept eraseCache)
      else map.lookup key := by
  induction todo generalizing map dbTx with
  | nil => rfl
  | cons entry rest ih =>
    rw [List.map_cons, List.nodup_cons] at nodup
    rw [List.forall_mem_cons] at present
    cases first : writeEntry entry.1 entry.2 dbTx with
    | error error =>
      rw [writeEntries, first, writeAll_cons_error first]
      exact (if_neg List.not_mem_nil).symm
    | ok middle =>
      have distinct : ∀ other ∈ rest, other.1 ≠ entry.1 := by
        rintro other member same
        exact nodup.1 (same ▸ List.mem_map_of_mem member)
      rw [writeEntries, first, writeAll_cons_ok first]
      rw [ih nodup.2 fun other member => by
        rw [lookup_keepEntry, if_neg (distinct other member)]
        exact present.2 other member]
      rw [lookup_keepEntry]
      rcases eq_or_ne key entry.1 with rfl | differs
      · rw [if_neg fun later => nodup.1 (mem_of_mem_writeAll later), if_pos rfl,
          if_pos (.head _), present.1]
        rfl
      · rw [if_neg differs]
        apply if_congr _ rfl rfl
        rw [List.mem_cons, or_iff_right differs]

variable {order : MapOrder} {maps : List (SizedMap OutPoint (Option CacheEntry))}

def allEntries (order : MapOrder) (maps : List (SizedMap OutPoint (Option CacheEntry))) : Entries :=
  maps.flatMap fun sized => order.entries sized.map

theorem MapOrder.nodup (order : MapOrder) (map : EntryMap) :
    ((order.entries map).map Sigma.fst).Nodup :=
  ((order.perm map).map Sigma.fst).nodup_iff.mpr map.keys_nodup

theorem MapOrder.lookup_of_mem (order : MapOrder) (map : EntryMap) :
    ∀ entry ∈ order.entries map, map.lookup entry.1 = some entry.2 := by
  intro entry member
  exact AList.mem_lookup_iff.mpr ((order.perm map).mem_iff.mp member)

theorem allEntries_cons (sized : SizedMap OutPoint (Option CacheEntry)) :
    allEntries order (sized :: maps) = order.entries sized.map ++ allEntries order maps :=
  List.flatMap_cons

theorem mem_keys_allEntries :
    key ∈ (allEntries order maps).map Sigma.fst ↔ lookupMaps maps key ≠ none := by
  rw [Ne, lookupMaps_eq_none]
  simp only [allEntries, List.map_flatMap, List.mem_flatMap, MapOrder.mem_keys, not_forall,
    not_not, exists_prop]

theorem nodup_allEntries (separate : Separate maps) :
    ((allEntries order maps).map Sigma.fst).Nodup := by
  induction maps with
  | nil => exact List.nodup_nil
  | cons sized rest ih =>
    rw [Separate, List.pairwise_cons] at separate
    rw [allEntries_cons, List.map_append, List.nodup_append]
    refine ⟨order.nodup sized.map, ih separate.2, ?_⟩
    rintro key inMap other inRest rfl
    apply mem_keys_allEntries.mp inRest
    apply lookupMaps_eq_none.mpr
    intro later member
    exact separate.1 later member key ((order.mem_keys sized.map key).mp inMap)

theorem lookup_of_mem_allEntries (separate : Separate maps) :
    ∀ entry ∈ allEntries order maps, lookupMaps maps entry.1 = some entry.2 := by
  induction maps with
  | nil => exact List.forall_mem_nil _
  | cons sized rest ih =>
    rw [Separate, List.pairwise_cons] at separate
    rw [allEntries_cons, List.forall_mem_append]
    refine ⟨fun entry member => ?_, fun entry member => ?_⟩
    · rw [lookupMaps_cons, order.lookup_of_mem sized.map entry member]
      rfl
    · have later := ih separate.2 entry member
      have absent : entry.1 ∉ sized.map := by
        intro held
        apply Option.some_ne_none entry.2
        rw [← later]
        exact lookupMaps_eq_none.mpr fun other inRest => separate.1 other inRest _ held
      rw [lookupMaps_cons, AList.lookup_eq_none.mpr absent]
      exact later

theorem writeMaps_snd : (writeMaps order eraseCache maps dbTx).2 =
      (writeAll (allEntries order maps) dbTx).2 := by
  induction maps generalizing dbTx with
  | nil => rfl
  | cons sized rest ih =>
    have same := @writeEntries_snd (order.entries sized.map) dbTx eraseCache sized.map
    rw [writeMaps, allEntries_cons]
    split
    · next map error written =>
      rw [written] at same
      rw [writeAll_append_of_error same.symm, ← same]
    · next map middle written =>
      rw [written] at same
      rw [writeAll_append_of_ok same.symm]
      exact ih

theorem lookup_writeMaps (separate : Separate maps) (key : OutPoint) :
    lookupMaps (writeMaps order eraseCache maps dbTx).1 key =
      if key ∈ (writeAll (allEntries order maps) dbTx).1 then
        (lookupMaps maps key).bind (Lines.kept eraseCache)
      else lookupMaps maps key := by
  induction maps generalizing dbTx with
  | nil => exact (ite_self _).symm
  | cons sized rest ih =>
    rw [Separate, List.pairwise_cons] at separate
    have elsewhere : key ∈ sized.map → lookupMaps rest key = none := fun held =>
      lookupMaps_eq_none.mpr fun other member => separate.1 other member key held
    have same := @writeEntries_snd (order.entries sized.map) dbTx eraseCache sized.map
    have here := @lookup_writeEntries (order.entries sized.map) dbTx eraseCache sized.map
      (order.nodup sized.map) (order.lookup_of_mem sized.map) key
    rw [writeMaps, allEntries_cons, lookupMaps_cons]
    split
    · next map error written =>
      rw [written] at same here
      rw [writeAll_append_of_error same.symm, lookupMaps_cons, here]
      split
      · next handled =>
        have held := (order.mem_keys sized.map key).mp (mem_of_mem_writeAll handled)
        rw [elsewhere held, Option.or_none, Option.or_none]
      · rfl
    · next map middle written =>
      rw [written] at same here
      rw [writeAll_append_of_ok same.symm, lookupMaps_cons, here, ih separate.2,
        handled_of_ok same.symm]
      simp only [List.mem_append, MapOrder.mem_keys]
      by_cases held : key ∈ sized.map
      · simp only [held, if_true, true_or, elsewhere held, Option.or_none,
          Option.bind_none, ite_self]
      · simp only [held, if_false, false_or, AList.lookup_eq_none.mpr held, Option.none_or]

theorem pending_of_perform
    (performed : dbTx.perform change = .ok after) : after.pending = change dbTx.pending := by
  rw [DbTx.perform] at performed
  split at performed
  · cases performed
    rfl
  · cases performed
  · cases performed
    rfl

theorem perform_of_unlimited (change : ChainDb → ChainDb) (unlimited : dbTx.budget = none) :
    dbTx.perform change = .ok ⟨change dbTx.pending, none⟩ := by
  rw [DbTx.perform, unlimited]

theorem pending_of_writeEntry
    (written : writeEntry outPoint entry dbTx = .ok after) :
    after.pending = { dbTx.pending with
      utxos := Function.update dbTx.pending.utxos outPoint
        (Lines.stored entry (dbTx.pending.utxos outPoint)) } := by
  cases entry with
  | none =>
    rw [writeEntry] at written
    exact pending_of_perform written
  | some entry =>
    rw [writeEntry] at written
    rw [Lines.stored]
    cases spent : entry.spent with
    | true =>
      rw [if_pos spent] at written
      exact pending_of_perform written
    | false =>
      rw [if_neg (ne_true_of_eq_false spent)] at written
      cases modified : entry.modified with
      | true =>
        rw [modified, Bool.not_true, if_neg Bool.false_ne_true] at written
        exact pending_of_perform written
      | false =>
        rw [modified] at written
        cases written
        simp

theorem writeEntry_of_unlimited (outPoint : OutPoint) (entry : Option CacheEntry)
    (unlimited : dbTx.budget = none) :
    ∃ after, writeEntry outPoint entry dbTx = .ok after ∧ after.budget = none := by
  cases entry with
  | none =>
    rw [writeEntry]
    exact ⟨_, perform_of_unlimited _ unlimited, rfl⟩
  | some entry =>
    rw [writeEntry]
    split
    · exact ⟨_, perform_of_unlimited _ unlimited, rfl⟩
    · split
      · exact ⟨dbTx, rfl, unlimited⟩
      · exact ⟨_, perform_of_unlimited _ unlimited, rfl⟩

theorem writeAll_of_unlimited (unlimited : dbTx.budget = none) :
    ∃ after, (writeAll todo dbTx).2 = .ok after ∧ after.budget = none := by
  induction todo generalizing dbTx with
  | nil => exact ⟨dbTx, rfl, unlimited⟩
  | cons entry rest ih =>
    obtain ⟨middle, first, unlimited⟩ := writeEntry_of_unlimited entry.1 entry.2 unlimited
    rw [writeAll_cons_ok first]
    exact ih unlimited

theorem pending_of_writeAll {lines : Lines OutPoint SpentTxOut} (nodup : (todo.map Sigma.fst).Nodup)
    (present : ∀ entry ∈ todo, lines entry.1 = some entry.2)
    (written : (writeAll todo dbTx).2 = .ok after) :
    after.pending = { dbTx.pending with
      utxos := lines.storeBack (todo.map Sigma.fst) dbTx.pending.utxos } := by
  induction todo generalizing dbTx with
  | nil =>
    cases written
    rfl
  | cons entry rest ih =>
    rw [List.map_cons, List.nodup_cons] at nodup
    rw [List.forall_mem_cons] at present
    cases first : writeEntry entry.1 entry.2 dbTx with
    | error error =>
      rw [writeAll_cons_error first] at written
      cases written
    | ok middle =>
      rw [writeAll_cons_ok first] at written
      rw [ih nodup.2 present.2 written, pending_of_writeEntry first,
        Lines.storeBack_cons nodup.1 present.1]
      rfl

variable {memory : MemoryRules} {now : Int} {cache : UtxoCache} {bestHash : Hash}

def handled (order : MapOrder) (cache : UtxoCache) (dbTx : DbTx) : List OutPoint :=
  (writeAll (allEntries order cache.cachedEntries.maps) dbTx).1

theorem get_writeSlice : (writeSlice order eraseCache cache.cachedEntries dbTx).get =
      cache.lines.keepBack eraseCache (cache.handled order dbTx) := by
  funext key
  exact lookup_writeMaps cache.cachedEntries.separate key

theorem lines_afterWrite
    (written : (writeMaps order eraseCache cache.cachedEntries.maps dbTx).2 = .ok after) :
    (cache.afterWrite memory order eraseCache dbTx).lines =
      cache.lines.keepBack eraseCache (cache.handled order dbTx) := by
  rw [writeMaps_snd] at written
  cases eraseCache with
  | false => exact get_writeSlice
  | true =>
    have empty : ∀ key, cache.lines.keepBack true (cache.handled order dbTx) key = none := by
      intro key
      rw [Lines.keepBack]
      split
      · cases cache.lines key with
        | none => rfl
        | some cached =>
          cases cached with
          | none => rfl
          | some line => rfl
      · next notHandled =>
        rw [handled, handled_of_ok written, mem_keys_allEntries, not_not] at notHandled
        exact notHandled
    funext key
    rw [empty key]
    apply MapSlice.get_deleteMaps
    intro key
    rw [get_writeSlice]
    exact empty key

theorem lines_writeCache : (cache.writeCache memory order now bestHash eraseCache dbTx).1.lines =
      cache.lines.keepBack eraseCache (cache.handled order dbTx) := by
  rw [writeCache]
  split
  · exact get_writeSlice
  · next written equation =>
    have after := @lines_afterWrite _ _ _ order memory cache equation
    split
    · exact after
    · exact after

variable {ledger : Ledger OutPoint SpentTxOut} {db : ChainDb}

theorem Stands.writeCache (stands : Stands cache dbTx.pending.utxos ledger)
    (unlimited : dbTx.budget = none) :
    ∃ after, cache.writeCache memory order now bestHash eraseCache dbTx =
        (after, .ok ⟨dbTx.pending.consistentAt ledger bestHash, none⟩) ∧
      Stands after ledger ledger := by
  obtain ⟨written, equation, unlimited⟩ := @writeAll_of_unlimited
    (allEntries order cache.cachedEntries.maps) dbTx unlimited
  have all : ∀ key, cache.lines key ≠ none → key ∈ cache.handled order dbTx := by
    intro key present
    rw [handled, handled_of_ok equation]
    exact mem_keys_allEntries.mpr present
  have pending := @pending_of_writeAll _ _ _ cache.lines
    (nodup_allEntries cache.cachedEntries.separate)
    (lookup_of_mem_allEntries cache.cachedEntries.separate) equation
  have keys : (allEntries order cache.cachedEntries.maps).map Sigma.fst =
      cache.handled order dbTx := (handled_of_ok equation).symm
  have stored := stands.coherent.storeBack all
  have coherent := stands.coherent.keepBack eraseCache all
  rw [keys, stored, stands.overlay] at pending
  rw [stored, stands.overlay] at coherent
  have lines := @lines_writeCache dbTx eraseCache order memory now cache bestHash
  have outcome : ∃ after, cache.writeCache memory order now bestHash eraseCache dbTx =
      (after, .ok ⟨dbTx.pending.consistentAt ledger bestHash, none⟩) := by
    rw [UtxoCache.writeCache, writeMaps_snd, equation, dbPutUtxoStateConsistency]
    simp only [perform_of_unlimited _ unlimited, pending]
    exact ⟨_, rfl⟩
  obtain ⟨after, equation⟩ := outcome
  rw [equation] at lines
  refine ⟨after, equation, ?_, ?_⟩
  · rw [lines]
    exact coherent
  · rw [lines, ← stands.overlay]
    funext key
    rw [Lines.overlay_keepBack, Lines.overlay_overlay]
    exact ite_self _

theorem Stands.flushUtxoCache (stands : Stands cache db.utxos ledger) (mode : FlushMode) :
    ∃ after written, cache.flushUtxoCache memory order now mode bestHash db none =
        (after, written, .ok ()) ∧ Stands after written.utxos ledger ∧
      (written = db ∨ written = db.consistentAt ledger bestHash) := by
  rw [UtxoCache.flushUtxoCache]
  split
  · next isDue =>
    obtain ⟨after, equation, standsAfter⟩ := @Stands.writeCache ⟨db, none⟩
      (cache.erases memory mode) order memory now cache bestHash ledger stands rfl
    refine ⟨after, db.consistentAt ledger bestHash, ?_, standsAfter, .inr rfl⟩
    rw [dbUpdate, flush, if_pos isDue, equation]
    rfl
  · exact ⟨cache, db, rfl, stands, .inl rfl⟩

end UtxoCache

end ModelOS.BlockChain
