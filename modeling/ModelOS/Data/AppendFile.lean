import ModelOS.Data.Bytes

namespace ModelOS.Data

/-! A write goes to the end and leaves the position there; opening puts the position at
the front, and truncation does not move it. -/

structure AppendFile where
  data : Bytes
  position : Nat
deriving DecidableEq

namespace AppendFile

def opened (data : Bytes) : AppendFile :=
  ⟨data, 0⟩

def append (file : AppendFile) (bytes : Bytes) : AppendFile :=
  ⟨file.data ++ bytes, file.data.length + bytes.length⟩

/-- A write that fails after some of its bytes.  Whether it moves the position is left
open. -/
def tear (file : AppendFile) (bytes : Bytes) (written : Nat) (moves : Bool) : AppendFile :=
  ⟨file.data ++ bytes.take written,
    if moves then file.data.length + (bytes.take written).length else file.position⟩

/-- A size beyond the end adds zeros. -/
def truncate (file : AppendFile) (size : Nat) : AppendFile :=
  ⟨file.data.take size ++ List.replicate (size - file.data.length) 0, file.position⟩

/-- A read of nothing succeeds anywhere; any other read must end within the file. -/
def readAt (file : AppendFile) (offset size : Nat) : Option Bytes :=
  if size = 0 then some []
  else if offset + size ≤ file.data.length then some (slice file.data offset size)
  else none

variable {file : AppendFile} {bytes : Bytes} {size written : Nat} {moves : Bool}

@[simp] theorem length_data_truncate : (file.truncate size).data.length = size := by
  simp only [truncate, List.length_append, List.length_take, List.length_replicate]
  omega

theorem data_truncate_append :
    ((file.append bytes).truncate file.data.length).data = file.data := by
  simp [truncate, append]

theorem data_truncate_tear :
    ((file.tear bytes written moves).truncate file.data.length).data = file.data := by
  simp [truncate, tear]

theorem readAt_congr {other : AppendFile} (same : file.data = other.data)
    (offset size : Nat) : file.readAt offset size = other.readAt offset size := by
  rw [readAt, readAt, same]

end AppendFile

end ModelOS.Data
