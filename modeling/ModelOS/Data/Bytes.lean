import Mathlib

namespace ModelOS.Data

abbrev Bytes := List UInt8

/-- A byte array of a size known from its type. -/
structure FixedBytes (size : Nat) where
  bytes : Bytes
  length_eq : bytes.length = size
deriving DecidableEq

namespace FixedBytes

@[ext] theorem ext {first second : FixedBytes size}
    (equality : first.bytes = second.bytes) : first = second := by
  cases first
  cases second
  simp_all

@[simp] theorem length_bytes (value : FixedBytes size) : value.bytes.length = size :=
  value.length_eq

/-- The array of zero bytes, which is what an unset array variable holds. -/
def zero (size : Nat) : FixedBytes size :=
  ⟨List.replicate size 0, by simp⟩

def fill (size : Nat) (byte : UInt8) : FixedBytes size :=
  ⟨List.replicate size byte, List.length_replicate⟩

/-- Copy a slice into a zeroed array: a short source leaves the tail zero and
a long one is cut off. -/
def copy (size : Nat) (source : Bytes) : FixedBytes size :=
  ⟨(source ++ List.replicate size 0).take size, by simp⟩

theorem bytes_copy (source : Bytes) (length : source.length = size) :
    (copy size source).bytes = source := by
  simp [copy, ← length]

@[simp] theorem copy_bytes (value : FixedBytes size) : copy size value.bytes = value :=
  ext (bytes_copy value.bytes value.length_eq)

end FixedBytes

def slice (source : Bytes) (offset size : Nat) : Bytes :=
  (source.drop offset).take size

theorem length_slice (source : Bytes) (offset size : Nat) (bound : offset + size ≤ source.length) :
    (slice source offset size).length = size := by
  simp only [slice, List.length_take, List.length_drop]
  omega

theorem slice_append_slice (source : Bytes) (offset first second : Nat) :
    slice source offset first ++ slice source (offset + first) second =
      slice source offset (first + second) := by
  simp only [slice, ← List.drop_drop]
  exact (List.take_add).symm

variable {offset : Nat} {data : Bytes}

theorem slice_append_next
    (adjacent : offset + first = next) : slice source offset first ++ slice source next second =
      slice source offset (first + second) := by
  rw [← adjacent, slice_append_slice]

theorem slice_length (source : Bytes) : slice source 0 source.length = source := by
  simp [slice]

theorem slice_slice (source : Bytes) (offset size inner innerSize : Nat)
    (bound : inner + innerSize ≤ size) : slice (slice source offset size) inner innerSize =
      slice source (offset + inner) innerSize := by
  simp only [slice, List.drop_take, List.take_take, List.drop_drop]
  congr 1
  omega

theorem slice_append (front rest : Bytes) (offset size : Nat) (length : front.length = offset) :
    slice (front ++ rest) offset size = rest.take size := by
  simp [slice, ← length]

theorem slice_skip (beyond : front.length ≤ offset) :
    slice (front ++ rest) offset size = slice rest (offset - front.length) size := by
  simp [slice, List.drop_append, List.drop_eq_nil_of_le beyond]

theorem slice_inside (inside : offset + size ≤ front.length) :
    slice (front ++ rest) offset size = slice front offset size := by
  rw [slice, List.drop_append_of_le_length (by omega),
    List.take_append_of_le_length (by rw [List.length_drop]; omega), ← slice]

theorem slice_front
    (length : front.length = size) : slice (front ++ rest) 0 size = front := by
  simp [slice, ← length]

def leBytes : (width : Nat) → (value : Nat) → Bytes
  | 0, _ => []
  | width + 1, value => UInt8.ofNat value :: leBytes width (value / 256)

def leNat : Bytes → Nat
  | [] => 0
  | byte :: rest => byte.toNat + 256 * leNat rest

@[simp] theorem length_leBytes (width value : Nat) : (leBytes width value).length = width := by
  induction width generalizing value with
  | zero => rfl
  | succ width ih => simp [leBytes, ih]

theorem leBytes_ne_nil (positive : 0 < width) (value : Nat) :
    leBytes width value ≠ [] := by
  intro empty
  have length := length_leBytes width value
  rw [empty] at length
  exact absurd length positive.ne

theorem leNat_lt (bytes : Bytes) : leNat bytes < 256 ^ bytes.length := by
  induction bytes with
  | nil => simp [leNat]
  | cons byte rest ih =>
    have byteBound := byte.toNat_lt
    simp only [leNat, List.length_cons, Nat.pow_succ]
    omega

theorem leNat_append_zero (bytes : Bytes) : leNat (bytes ++ [0]) = leNat bytes := by
  induction bytes with
  | nil => rfl
  | cons byte rest ih => rw [List.cons_append, leNat, ih, leNat]

theorem leNat_leBytes (width value : Nat) : leNat (leBytes width value) = value % 256 ^ width := by
  induction width generalizing value with
  | zero => simp [leBytes, leNat, Nat.mod_one]
  | succ width ih =>
    have lowByte : (UInt8.ofNat value).toNat = value % 256 := by simp
    rw [leBytes, leNat, ih, lowByte, Nat.pow_succ', Nat.mod_mul]

theorem leNat_leBytes_of_lt (bound : value < 256 ^ width) :
    leNat (leBytes width value) = value := by
  rw [leNat_leBytes, Nat.mod_eq_of_lt bound]

theorem leBytes_leNat (bytes : Bytes) : leBytes bytes.length (leNat bytes) = bytes := by
  induction bytes with
  | nil => rfl
  | cons byte rest ih =>
    have byteBound := byte.toNat_lt
    have quotient : (byte.toNat + 256 * leNat rest) / 256 = leNat rest := by
      omega
    have remainder : UInt8.ofNat (byte.toNat + 256 * leNat rest) = byte := by
      apply UInt8.toNat_inj.mp
      simp only [UInt8.toNat_ofNat']
      omega
    simp only [List.length_cons, leBytes, leNat, quotient, remainder, ih]

theorem leBytes_injective (firstBound : first < 256 ^ width) (secondBound : second < 256 ^ width)
    (equality : leBytes width first = leBytes width second) : first = second := by
  rw [← leNat_leBytes_of_lt firstBound, equality, leNat_leBytes_of_lt secondBound]

@[simp] theorem ofNat_leNat_leBytes_uint16 (value : UInt16) :
    UInt16.ofNat (leNat (leBytes 2 value.toNat)) = value := by
  rw [leNat_leBytes_of_lt (by have := value.toNat_lt; omega)]
  exact UInt16.ofNat_toNat

@[simp] theorem ofNat_leNat_leBytes_uint32 (value : UInt32) :
    UInt32.ofNat (leNat (leBytes 4 value.toNat)) = value := by
  rw [leNat_leBytes_of_lt (by have := value.toNat_lt; omega)]
  exact UInt32.ofNat_toNat

@[simp] theorem ofNat_leNat_leBytes_uint64 (value : UInt64) :
    UInt64.ofNat (leNat (leBytes 8 value.toNat)) = value := by
  rw [leNat_leBytes_of_lt (by have := value.toNat_lt; omega)]
  exact UInt64.ofNat_toNat

theorem leBytes_toNat_uint16 (length : bytes.length = 2) :
    leBytes 2 (UInt16.ofNat (leNat bytes)).toNat = bytes := by
  have bound := leNat_lt bytes
  have roundTrip := leBytes_leNat bytes
  rw [length] at bound roundTrip
  rw [UInt16.toNat_ofNat_of_lt' (by simpa using bound), roundTrip]

theorem leBytes_toNat_uint32 (length : bytes.length = 4) :
    leBytes 4 (UInt32.ofNat (leNat bytes)).toNat = bytes := by
  have bound := leNat_lt bytes
  have roundTrip := leBytes_leNat bytes
  rw [length] at bound roundTrip
  rw [UInt32.toNat_ofNat_of_lt' (by simpa using bound), roundTrip]

theorem leBytes_toNat_uint64 (length : bytes.length = 8) :
    leBytes 8 (UInt64.ofNat (leNat bytes)).toNat = bytes := by
  have bound := leNat_lt bytes
  have roundTrip := leBytes_leNat bytes
  rw [length] at bound roundTrip
  rw [UInt64.toNat_ofNat_of_lt' (by simpa using bound), roundTrip]

def readU16 (data : Bytes) (offset : Nat) : UInt16 :=
  UInt16.ofNat (leNat (slice data offset 2))

def readU32 (data : Bytes) (offset : Nat) : UInt32 :=
  UInt32.ofNat (leNat (slice data offset 4))

def readU32s (data : Bytes) (offset : Nat) : (count : Nat) → List UInt32
  | 0 => []
  | count + 1 => readU32 data offset :: readU32s data (offset + 4) count

def writeU32s (values : List UInt32) : Bytes :=
  values.flatMap fun value => leBytes 4 value.toNat

theorem leBytes_readU16 (bound : offset + 2 ≤ data.length) :
    leBytes 2 (readU16 data offset).toNat = slice data offset 2 :=
  leBytes_toNat_uint16 (length_slice data offset 2 bound)

theorem leBytes_readU32 (bound : offset + 4 ≤ data.length) :
    leBytes 4 (readU32 data offset).toNat = slice data offset 4 :=
  leBytes_toNat_uint32 (length_slice data offset 4 bound)

theorem readU16_slice {size inner : Nat} (bound : inner + 2 ≤ size) :
    readU16 (slice data offset size) inner = readU16 data (offset + inner) := by
  rw [readU16, slice_slice data offset size inner 2 bound, ← readU16]

theorem readU16_leBytes (value : UInt16) (rest : Bytes) :
    readU16 (leBytes 2 value.toNat ++ rest) 0 = value := by
  simp [readU16, slice]

theorem readU32_leBytes (value : UInt32) (rest : Bytes) :
    readU32 (leBytes 4 value.toNat ++ rest) 0 = value := by
  simp [readU32, slice]

@[simp] theorem length_readU32s (data : Bytes) (offset count : Nat) :
    (readU32s data offset count).length = count := by
  induction count generalizing offset with
  | zero => rfl
  | succ count ih => simp [readU32s, ih]

@[simp] theorem length_writeU32s (values : List UInt32) :
    (writeU32s values).length = 4 * values.length := by
  simp [writeU32s, Nat.mul_comm]

theorem writeU32s_readU32s (bound : offset + 4 * count ≤ data.length) :
    writeU32s (readU32s data offset count) = slice data offset (4 * count) := by
  induction count generalizing offset with
  | zero => simp [readU32s, writeU32s, slice]
  | succ count ih =>
    have rest := @ih (offset + 4) (by omega)
    rw [writeU32s] at rest
    rw [readU32s, writeU32s, List.flatMap_cons, rest,
      leBytes_readU32 (by omega), slice_append_slice]
    congr 1
    omega

theorem readU32_append (front rest : Bytes) (offset : Nat) :
    readU32 (front ++ rest) (front.length + offset) = readU32 rest offset := by
  simp [readU32, slice, ← List.drop_drop]

theorem readU32s_append (front rest : Bytes) (offset count : Nat) :
    readU32s (front ++ rest) (front.length + offset) count = readU32s rest offset count := by
  induction count generalizing offset with
  | zero => rfl
  | succ count ih =>
    rw [readU32s, readU32s, readU32_append, Nat.add_assoc, ih]

theorem readU32s_writeU32s (values : List UInt32) (rest : Bytes) :
    readU32s (writeU32s values ++ rest) 0 values.length = values := by
  induction values with
  | nil => rfl
  | cons value values ih =>
    have shifted := readU32s_append (leBytes 4 value.toNat)
      (writeU32s values ++ rest) 0 values.length
    rw [length_leBytes] at shifted
    rw [List.length_cons, readU32s, writeU32s, List.flatMap_cons,
      List.append_assoc, readU32_leBytes, Nat.zero_add, ← writeU32s, shifted, ih]

/-- Big-endian bytes, the order in which keys and digests are written. -/
def beBytes (width value : Nat) : Bytes :=
  (leBytes width value).reverse

@[simp] theorem length_beBytes (width value : Nat) : (beBytes width value).length = width := by
  simp [beBytes]

def FixedBytes.ofNat (size value : Nat) : FixedBytes size :=
  ⟨beBytes size value, length_beBytes size value⟩

end ModelOS.Data
