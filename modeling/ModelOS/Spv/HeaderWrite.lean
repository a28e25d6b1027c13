import ModelOS.Spv.HeaderFs

namespace ModelOS.Spv

open Data Wire

/-! What is left of a header store when a write fails and the recovery works. -/

namespace HeaderStore

variable {type : HeaderType}

/-- Every header that could be read can still be read, the file is as long as before and the
tip is the same. -/
def Unchanged (before after : HeaderStore type) : Prop :=
  (∀ height raw, before.readRaw height = .ok raw → after.readRaw height = .ok raw) ∧
    after.file.data.length = before.file.data.length ∧ after.chainTip = before.chainTip

def tornBytes (headers : List (HeaderEntry type)) (faults : Faults) : Nat :=
  match faults.seek, faults.write with
  | none, some (written, _, _) =>
    ((headers.flatMap fun header => header.raw.bytes).take written).length
  | _, _ => 0

variable {store : HeaderStore type} {headers : List (HeaderEntry type)} {faults : Faults}
  {error : String}

theorem readRaw_congr {other : HeaderStore type} (same : store.file.data = other.file.data)
    (height : UInt32) : store.readRaw height = other.readRaw height := by
  rw [readRaw, readRaw, AppendFile.readAt_congr same]

theorem unchanged_of_data
    (data : after.file.data = store.file.data) (index : after.index = store.index) :
    Unchanged store after := by
  refine ⟨fun height raw readable => ?_, by rw [data], ?_⟩
  · rw [readRaw_congr data, readable]
  · rw [chainTip, chainTip, index]
    split
    · rfl
    · rw [readRaw_congr data]
      cases type <;> rfl

theorem length_flatMap_raw (headers : List (HeaderEntry type)) :
    (headers.flatMap fun header => header.raw.bytes).length = headers.length * type.size := by
  induction headers with
  | nil => simp
  | cons header rest ih =>
    rw [List.flatMap_cons, List.length_append, ih, FixedBytes.length_bytes, List.length_cons]
    ring

theorem appendRaw_ok
    (done : store.appendRaw (headers.flatMap fun header => header.raw.bytes) faults =
      (written, .ok ())) :
    written = { store with
        file := store.file.append (headers.flatMap fun header => header.raw.bytes) } ∧
      faults.seek = none ∧ faults.write = none := by
  rw [appendRaw] at done
  split at done
  · cases done
  · next seek =>
    dsimp only at done
    split at done
    · next write =>
      cases done
      exact ⟨rfl, seek, write⟩
    · split at done
      · split at done <;> cases done
      · cases done

theorem appendRaw_error (recovered : faults.truncate = none)
    (failed : store.appendRaw (headers.flatMap fun header => header.raw.bytes) faults =
      (torn, .error error)) :
    torn.index = store.index ∧
      torn.file.data.length = (if 0 < tornBytes headers faults then store.file.position
        else store.file.data.length) ∧
      (tornBytes headers faults = 0 ∨ store.file.position = store.file.data.length →
        torn.file.data = store.file.data) := by
  rw [appendRaw, recovered] at failed
  rw [tornBytes]
  cases seek : faults.seek with
  | some seekError =>
    rw [seek] at failed
    cases failed
    exact ⟨rfl, rfl, fun _ => rfl⟩
  | none =>
    rw [seek] at failed
    dsimp only at failed ⊢
    cases write : faults.write with
    | none =>
      rw [write] at failed
      cases failed
    | some cause =>
      obtain ⟨count, moves, message⟩ := cause
      rw [write] at failed
      dsimp only at failed ⊢
      split at failed
      · next some =>
        cases failed
        refine ⟨rfl, ?_, ?_⟩
        · rw [if_pos some]
          exact AppendFile.length_data_truncate
        · rintro (none | atEnd)
          · omega
          · dsimp only
            rw [atEnd]
            exact AppendFile.data_truncate_tear
      · next none =>
        cases failed
        have empty : (headers.flatMap fun header => header.raw.bytes).take count = [] :=
          List.length_eq_zero_iff.mp (by omega)
        have same : (store.file.tear (headers.flatMap fun header => header.raw.bytes)
            count moves).data = store.file.data := by
          rw [AppendFile.tear, empty, List.append_nil]
        refine ⟨rfl, ?_, fun _ => same⟩
        rw [if_neg none, same]

/-- After a failed update of the index the new headers are cut off; their number is taken
modulo 2^32. -/
theorem truncateHeaders_append (store : HeaderStore type) (headers : List (HeaderEntry type)) :
    ∃ file, ({ store with
        file := store.file.append (headers.flatMap fun header => header.raw.bytes) } :
          HeaderStore type).truncateHeaders (UInt32.ofNat headers.length) none =
        ({ store with file := file }, .ok ()) ∧
      file.data.length = store.file.data.length +
        (headers.length - headers.length % 2 ^ 32) * type.size ∧
      (headers.length < 2 ^ 32 → file.data = store.file.data) := by
  have total : (store.file.append (headers.flatMap fun header => header.raw.bytes)).data.length =
      store.file.data.length + headers.length * type.size := by
    rw [AppendFile.append, List.length_append, length_flatMap_raw]
  have whole := Nat.mod_le headers.length (2 ^ 32)
  have count : (UInt32.ofNat headers.length).toNat = headers.length % 2 ^ 32 := rfl
  rw [truncateHeaders]
  split
  · next zero =>
    have multiple : headers.length % 2 ^ 32 = 0 := by
      rw [← count, zero]
      rfl
    refine ⟨_, rfl, ?_, fun few => ?_⟩
    · rw [total, multiple, Nat.sub_zero]
    · rw [Nat.mod_eq_of_lt few] at multiple
      rw [List.length_eq_zero_iff.mp multiple]
      simp [AppendFile.append]
  · dsimp only
    have shorter : headers.length % 2 ^ 32 * type.size ≤ headers.length * type.size :=
      Nat.mul_le_mul_right _ whole
    rw [count, total, if_neg (by omega)]
    refine ⟨_, rfl, ?_, fun few => ?_⟩
    · rw [AppendFile.length_data_truncate, Nat.sub_mul, Nat.add_sub_assoc shorter]
    · rw [Nat.mod_eq_of_lt few, Nat.add_sub_cancel]
      exact AppendFile.data_truncate_append

/-- The state before the write and the batch from which the recovery leads back: bytes of a
torn write need the position at the end of the file, and a batch that reaches the index must
be counted exactly. -/
def Recoverable (store : HeaderStore type) (headers : List (HeaderEntry type))
    (faults : Faults) : Prop :=
  (0 < tornBytes headers faults → store.file.position = store.file.data.length) ∧
    (faults.seek = none → faults.write = none → headers.length < 2 ^ 32)

theorem unchanged_iff_of_data
    (index : after.index = store.index) (data : condition → after.file.data = store.file.data)
    (length : after.file.data.length = store.file.data.length → condition) :
    Unchanged store after ↔ condition :=
  ⟨fun unchanged => length unchanged.2.1, fun holds => unchanged_of_data (data holds) index⟩

/-- A failed write whose recovery works changes nothing exactly if the recovery leads back. -/
theorem failedWrite_unchanged_iff (synced : faults.sync = none) (recovered : faults.truncate = none)
    (failed : (store.writeHeaders headers faults).2 = .error error) :
    Unchanged store (store.writeHeaders headers faults).1 ↔ Recoverable store headers faults := by
  rw [writeHeaders] at failed ⊢
  split at failed
  · cases failed
  next nonempty =>
  rw [if_neg nonempty]
  cases appended : store.appendRaw (headers.flatMap fun header => header.raw.bytes) faults with
  | mk written outcome =>
  rw [appended] at failed
  cases outcome with
  | error cause =>
    obtain ⟨index, length, data⟩ := appendRaw_error recovered appended
    have notIndexed : faults.seek = none → faults.write ≠ none := by
      intro seek write
      rw [appendRaw, seek, write] at appended
      cases appended
    apply unchanged_iff_of_data index
    · rintro ⟨atEnd, _⟩
      apply data
      exact (Nat.eq_zero_or_pos _).imp_right atEnd
    · intro same
      refine ⟨fun torn => ?_, fun seek write => absurd write (notIndexed seek)⟩
      exact ((if_pos torn).symm.trans length.symm).trans same
  | ok done =>
    obtain ⟨rfl, seek, write⟩ := appendRaw_ok appended
    obtain ⟨file, truncated, length, data⟩ := truncateHeaders_append store headers
    have whole : tornBytes headers faults = 0 := by
      rw [tornBytes, seek, write]
    dsimp only at failed ⊢
    rw [synced, recovered, truncated] at failed ⊢
    split at failed
    · cases failed
    · have kept : ({ store with file := file } : HeaderStore type).index = store.index := rfl
      apply unchanged_iff_of_data kept
      · rintro ⟨_, few⟩
        exact data (few seek write)
      · intro same
        have sized : 0 < type.size := by cases type <;> decide
        have none : (headers.length - headers.length % 2 ^ 32) * type.size = 0 := by
          dsimp only at same
          omega
        have divided := Nat.mod_lt headers.length (Nat.two_pow_pos 32)
        refine ⟨fun torn => absurd torn (by omega), fun _ _ => ?_⟩
        have counted := (Nat.mul_eq_zero.mp none).resolve_right sized.ne'
        omega

inductive Reachable (sha256d : Bytes → Hash) (genesis : HeaderEntry .block) :
    HeaderStore .block → Prop
  | created : Reachable sha256d genesis ⟨.opened [], .empty⟩
  | reopened {store : HeaderStore .block} (faults : Faults)
      (reachable : Reachable sha256d genesis store) :
      Reachable sha256d genesis (store.reopen sha256d genesis faults).1
  | written {store : HeaderStore .block} (headers : List (HeaderEntry .block))
      (faults : Faults) (reachable : Reachable sha256d genesis store) :
      Reachable sha256d genesis (store.writeHeaders headers faults).1
  | rolledBack {store : HeaderStore .block} (n : UInt32) (truncateFault indexFault : Option String)
      (reachable : Reachable sha256d genesis store) : Reachable sha256d genesis
        (store.rollbackBlockHeaders sha256d n truncateFault indexFault).1

end HeaderStore

def simNetGenesis : BlockHeader where
  version := 1
  prevBlock := .zero 32
  merkleRoot := .copy 32
    [193, 117, 22, 55, 56, 47, 189, 82, 245, 228, 226, 109, 201, 243, 141, 140, 204, 42, 178, 22,
      223, 237, 56, 189, 72, 150, 35, 241, 198, 89, 47, 48]
  timestamp := 1776675600
  bits := 0x1e010000
  proofCommitment := .zero 32

def simNetGenesisHash : Hash :=
  .copy 32
    [50, 88, 126, 36, 71, 176, 67, 47, 44, 206, 131, 176, 140, 129, 179, 190, 187, 30, 202, 255,
      239, 189, 219, 233, 168, 81, 106, 223, 39, 171, 208, 120]

def simNetChild : BlockHeader where
  version := 1
  prevBlock := simNetGenesisHash
  merkleRoot := .copy 32
    [250, 19, 81, 70, 248, 159, 114, 193, 49, 143, 193, 202, 77, 30, 197, 58, 214, 55, 212, 11,
      127, 106, 1, 198, 35, 141, 23, 237, 95, 53, 11, 146]
  timestamp := 1776675601
  bits := 0x1e010000
  proofCommitment := .zero 32

def simNetChildHash : Hash :=
  .copy 32
    [115, 152, 36, 21, 59, 49, 10, 159, 242, 65, 91, 173, 115, 71, 227, 61, 119, 63, 78, 215, 253,
      166, 134, 166, 216, 182, 24, 190, 17, 243, 253, 91]

def simNetHash (bytes : Bytes) : Hash :=
  if bytes = writeBlockHeader simNetGenesis then simNetGenesisHash
  else if bytes = writeBlockHeader simNetChild then simNetChildHash
  else .zero 32

namespace HeaderStore

def simNetGenesisEntry : HeaderEntry .block :=
  .block simNetHash simNetGenesis 0

def simNetChildEntry : HeaderEntry .block :=
  .block simNetHash simNetChild 1

def diskFull (written : Nat) : Faults :=
  { Faults.none with write := some (written, true, "no space left on device") }

def freshStore : HeaderStore .block :=
  (HeaderStore.reopen simNetHash simNetGenesisEntry ⟨.opened [], .empty⟩ .none).1

theorem failedWrite_unchanged_fresh :
    Unchanged freshStore (freshStore.writeHeaders [simNetChildEntry] (diskFull 50)).1 :=
  (failedWrite_unchanged_iff rfl rfl rfl).mpr ⟨fun _ => by decide, by rintro _ ⟨⟩⟩

/-- After a restart the position is at the front, and a full disk empties the file. -/
theorem failedWrite_empties_file : ∃ store, Reachable simNetHash simNetGenesisEntry store ∧
      store.readRaw 0 = .ok (writeBlockHeader simNetGenesis) ∧
      (store.writeHeaders [simNetChildEntry] (diskFull 50)).2 =
        .error ("failed to write header type BlockHeader: write error: " ++
          "no space left on device") ∧
      (store.writeHeaders [simNetChildEntry] (diskFull 50)).1.file.data = [] ∧
      ¬ Unchanged store (store.writeHeaders [simNetChildEntry] (diskFull 50)).1 := by
  refine ⟨(freshStore.reopen simNetHash simNetGenesisEntry .none).1,
    .reopened _ (.reopened _ .created), ?_⟩
  have run : (freshStore.reopen simNetHash simNetGenesisEntry .none).1.readRaw 0 =
        .ok (writeBlockHeader simNetGenesis) ∧
      ((freshStore.reopen simNetHash simNetGenesisEntry .none).1.writeHeaders
          [simNetChildEntry] (diskFull 50)).2 =
        .error ("failed to write header type BlockHeader: write error: " ++
          "no space left on device") ∧
      ((freshStore.reopen simNetHash simNetGenesisEntry .none).1.writeHeaders
          [simNetChildEntry] (diskFull 50)).1.file.data = [] := by
    decide
  refine ⟨run.1, run.2.1, run.2.2, fun unchanged => ?_⟩
  have emptied : (freshStore.reopen simNetHash simNetGenesisEntry .none).1.file.data.length = 0 :=
    unchanged.2.1.symm.trans (congrArg List.length run.2.2)
  exact absurd emptied (by decide)

end HeaderStore

end ModelOS.Spv
