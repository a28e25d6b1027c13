import ModelOS.Data.AppendFile
import ModelOS.Data.Checked
import ModelOS.Wire.BlockHeader

namespace ModelOS.Spv

open Data Wire

/-! Headers of one size in a flat file, and an index in the database from hashes to
heights with the tip of each kind of header. The sub-buckets of the index are one map
here. -/

inductive HeaderType
  | block
  | regularFilter
deriving DecidableEq

def HeaderType.size : HeaderType → Nat
  | block => maxBlockHeaderPayload
  | regularFilter => 32

def HeaderType.name : HeaderType → String
  | block => "BlockHeader"
  | regularFilter => "RegularFilterHeader"

def HeaderType.tipKey : HeaderType → String
  | block => "block"
  | regularFilter => "regular"

/-- A header as it is written, with its place in the index: its own hash for a block header,
the hash of its block for a filter header. -/
structure HeaderEntry (type : HeaderType) where
  raw : FixedBytes type.size
  hash : Hash
  height : UInt32
deriving DecidableEq

def HeaderEntry.block (sha256d : Bytes → Hash) (header : BlockHeader) (height : UInt32) :
    HeaderEntry .block :=
  ⟨⟨writeBlockHeader header, length_writeBlockHeader header⟩, header.blockHash sha256d, height⟩

structure HeaderIndex where
  heights : Hash → Option UInt32
  tip : HeaderType → Option Hash

namespace HeaderIndex

def empty : HeaderIndex :=
  ⟨fun _ => none, fun _ => none⟩

def setTip (index : HeaderIndex) (type : HeaderType) (hash : Hash) : HeaderIndex :=
  { index with tip := fun other => if other = type then some hash else index.tip other }

def putHeaderEntry (index : HeaderIndex) (hash : Hash) (height : UInt32) : HeaderIndex :=
  { index with heights := fun other => if other = hash then some height else index.heights other }

/-- The batch is put in the order of the hashes; the highest entry of it is the new tip. -/
def addHeaders {type : HeaderType} (index : HeaderIndex) (batch : List (HeaderEntry type)) :
    HeaderIndex :=
  if batch = [] then index
  else
    let sorted := batch.insertionSort fun first second => first.hash.bytes ≤ second.hash.bytes
    let index := sorted.foldl
      (fun index header => index.putHeaderEntry header.hash header.height) index
    let chainTip := sorted.foldl
      (fun (tip : Hash × UInt32) header =>
        if header.height ≥ tip.2 then (header.hash, header.height) else tip)
      (.zero 32, 0)
    index.setTip type chainTip.1

/-- Without hashes to remove only the tip moves. -/
def truncateIndices (index : HeaderIndex) (type : HeaderType) (newTip : Hash)
    (headersToTruncate : List Hash) : HeaderIndex :=
  { index with
    heights := fun hash => if hash ∈ headersToTruncate then none else index.heights hash }.setTip
      type newTip

def chainTip (index : HeaderIndex) (type : HeaderType) : Except String (Hash × UInt32) :=
  match index.tip type with
  | none => .error ("the key " ++ type.tipKey ++ " does not exist in bucket header-index")
  | some tipHash =>
    match index.heights tipHash with
    | none => .error "target height not found in index"
    | some tipHeight => .ok (tipHash, tipHeight)

/-- Block headers are new to the index; the block of a filter header is there already. -/
def extend : {type : HeaderType} → (index : HeaderIndex) → List (HeaderEntry type) → HeaderIndex
  | .block, index, batch => index.addHeaders batch
  | .regularFilter, index, batch =>
    match batch.getLast? with
    | none => index
    | some last => index.truncateIndices .regularFilter last.hash []

end HeaderIndex

/-- How a call can end early: with an error for the caller, or with a panic. -/
inductive Stop
  | error (message : String)
  | panic (message : String)
deriving DecidableEq

structure BlockStamp where
  height : Int32
  hash : Hash
deriving DecidableEq

structure HeaderStore (type : HeaderType) where
  file : AppendFile
  index : HeaderIndex

/-- What goes wrong in one call, with the texts of the causes.  A torn write says after how
many bytes it stops and whether it moves the position. -/
structure Faults where
  seek : Option String
  write : Option (Nat × Bool × String)
  index : Option String
  sync : Option String
  truncate : Option String

def Faults.none : Faults :=
  ⟨.none, .none, .none, .none, .none⟩

namespace HeaderStore

variable {type : HeaderType}

def readRaw (store : HeaderStore type) (height : UInt32) : Except String Bytes :=
  match store.file.readAt (height.toNat * type.size) type.size with
  | none => .error "EOF"
  | some raw => .ok raw

/-- Both ends are included.  The number of bytes is computed with 32 bits. -/
def readHeadersFromFile (store : HeaderStore type) (startHeight endHeight : UInt32) :
    Except String Bytes :=
  let numHeaders := endHeight - startHeight + 1
  present
    (store.file.readAt (startHeight.toNat * type.size) (UInt32.ofNat type.size * numHeaders).toNat)
    "EOF"

def readHeaderRange (store : HeaderStore .block) (startHeight endHeight : UInt32) :
    Except String (List BlockHeader) :=
  do
    let raw ← store.readHeadersFromFile startHeight endHeight
    -- The bytes are parsed header by header until none is left.
    require (raw.length % HeaderType.block.size = 0) "unexpected EOF"
    return (List.range (raw.length / HeaderType.block.size)).filterMap fun i =>
      readBlockHeader (slice raw (i * HeaderType.block.size) HeaderType.block.size)

def chainTip (store : HeaderStore type) : Except String (Bytes × UInt32) :=
  match store.index.chainTip type with
  | .error error => .error ("unable to fetch chain tip: " ++ error)
  | .ok (_, tipHeight) =>
    match store.readRaw tipHeight with
    | .error error =>
      .error (match type with
        | .block => "unable to read block header: " ++ error
        | .regularFilter => "unable to read filter header: " ++ error)
    | .ok raw => .ok (raw, tipHeight)

/-- The new size is negative if the file has fewer headers. -/
def truncateHeaders (store : HeaderStore type) (numHeaders : UInt32) (fault : Option String) :
    HeaderStore type × Except String Unit :=
  if numHeaders = 0 then (store, .ok ())
  else
    let truncateLength := numHeaders.toNat * type.size
    match fault with
    | some error => (store, .error error)
    | none =>
      if store.file.data.length < truncateLength then (store, .error "invalid argument")
      else
        ({ store with file := store.file.truncate (store.file.data.length - truncateLength) },
          .ok ())

def appendRaw (store : HeaderStore type) (header : Bytes) (faults : Faults) :
    HeaderStore type × Except String Unit :=
  match faults.seek with
  | some error => (store, .error error)
  | none =>
    let currentPos := store.file.position
    match faults.write with
    | none => ({ store with file := store.file.append header }, .ok ())
    | some (written, moves, error) =>
      let torn := { store with file := store.file.tear header written moves }
      let n := (header.take written).length
      if n > 0 then
        match faults.truncate with
        | some truncError =>
          (torn, .error ("failed to write header type " ++ type.name ++
            ": partial write (" ++ toString n ++ " bytes), write error: " ++ error ++
            ", truncate error: " ++ truncError))
        | none =>
          ({ torn with file := torn.file.truncate currentPos },
            .error ("failed to write header type " ++ type.name ++ ": write error: " ++ error))
      else
        (torn, .error ("failed to write header type " ++ type.name ++ ": write error: " ++ error))

def kindName : HeaderType → String
  | .block => "block"
  | .regularFilter => "filter"

def rollbackFailed (truncateError error : String) (headersToRollback : Nat) : HeaderType → String
  | .block => "failed to rollback block headers from binary file to previous valid state: " ++
      truncateError ++ ", error writing to database: " ++ error ++ ", headers to rollback: " ++
      toString headersToRollback
  | .regularFilter => "failed to rollback filter headers binary file to previous valid " ++
      "state: " ++ truncateError ++ ", error writing to database: " ++ error

/-- An empty batch of filter headers ends the call at once, one of block headers is written
as no bytes. -/
def writeHeaders (store : HeaderStore type) (headers : List (HeaderEntry type))
    (faults : Faults) : HeaderStore type × Except String Unit :=
  if type = .regularFilter ∧ headers = [] then (store, .ok ())
  else
    match store.appendRaw (headers.flatMap fun header => header.raw.bytes) faults with
    | (written, .error error) => (written, .error error)
    | (written, .ok ()) =>
      match if headers = [] then none else faults.index with
      | none => ({ written with index := written.index.extend headers }, .ok ())
      | some error =>
        match faults.sync with
        | some syncError =>
          (written, .error ("failed to sync " ++ kindName type ++ " headers file: " ++ syncError))
        | none =>
          match written.truncateHeaders (UInt32.ofNat headers.length) faults.truncate with
          | (rolledBack, .error truncateError) =>
            (rolledBack, .error (rollbackFailed truncateError error headers.length type))
          | (rolledBack, .ok ()) =>
            (rolledBack, .error ("failed to add " ++ kindName type ++ " headers to db: " ++ error))

/-- The header before the removed ones is read with them. -/
def rollbackBlockHeaders (sha256d : Bytes → Hash) (store : HeaderStore .block) (n : UInt32)
    (truncateFault indexFault : Option String) : HeaderStore .block × Except Stop BlockStamp :=
  if n = 0 then (store, .ok ⟨0, .zero 32⟩)
  else
    match store.index.chainTip .block with
    | .error error => (store, .error (.error error))
    | .ok (_, chainTipHeight) =>
      if n > chainTipHeight then
        (store, .error (.error ("cannot roll back " ++ toString n ++
          " headers when chain height is " ++ toString chainTipHeight)))
      else
        match store.readHeaderRange (chainTipHeight - n) chainTipHeight with
        | .error error =>
          (store, .error (.error ("failed to read headers range: " ++ error)))
        | .ok [] =>
          (store, .error (.panic "runtime error: index out of range [0] with length 0"))
        | .ok (prevHeader :: removed) =>
          let prevHeaderHash := prevHeader.blockHash sha256d
          match store.truncateHeaders n truncateFault with
          | (truncated, .error error) => (truncated, .error (.error error))
          | (truncated, .ok ()) =>
            let indexFault := if removed = [] then
                some ("remove flag set but headers to truncate beyond new tip " ++ "not provided")
              else indexFault
            match indexFault with
            | some error => (truncated, .error (.error error))
            | none =>
              ({ truncated with
                  index := truncated.index.truncateIndices .block prevHeaderHash
                    (removed.map (BlockHeader.blockHash sha256d)) },
                .ok ⟨(chainTipHeight - n).toInt32, prevHeaderHash⟩)

/-- What the tip in the index is compared with: the hash of the last block header, and the
last filter header itself. -/
def latestHash (sha256d : Bytes → Hash) (raw : Bytes) : HeaderType → Hash
  | .block => sha256d raw
  | .regularFilter => .copy 32 raw

/-- The files of an earlier run are cut to what the index knows. -/
def reopen (sha256d : Bytes → Hash) (genesis : HeaderEntry type) (store : HeaderStore type)
    (faults : Faults) : HeaderStore type × Except String Unit :=
  let store := { store with file := .opened store.file.data }
  if store.file.data.length = 0 then store.writeHeaders [genesis] faults
  else
    match store.index.chainTip type with
    | .error error => (store, .error error)
    | .ok (tipHash, tipHeight) =>
      let fileHeight := UInt32.ofNat (store.file.data.length / type.size) - 1
      match store.readRaw fileHeight with
      | .error error => (store, .error error)
      | .ok raw =>
        if tipHash = latestHash sha256d raw type then (store, .ok ())
        else store.truncateHeaders (fileHeight - tipHeight) faults.truncate

end HeaderStore

end ModelOS.Spv
