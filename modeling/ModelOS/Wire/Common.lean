import ModelOS.Data.Decoder
import ModelOS.Data.PrefixCode
import ModelOS.Wire.Tx

namespace ModelOS.Wire

open Data

inductive WireError
  | eof
  | unexpectedEOF
  | message (func description : String)
  | plain (description : String)
deriving DecidableEq

def WireError.error : WireError → String
  | eof => "EOF"
  | unexpectedEOF => "unexpected EOF"
  | message func description =>
    if func ≠ "" then func ++ ": " ++ description else description
  | plain description => description

def readFull (size : Nat) : Decoder WireError Bytes :=
  .readFull size .eof .unexpectedEOF .done

def hex (value : Nat) : String :=
  String.ofList (Nat.toDigits 16 value)

def hexByte (byte : UInt8) : String :=
  if byte.toNat < 16 then "0" ++ hex byte.toNat else hex byte.toNat

def errNonCanonicalVarInt (value discriminant minimum : Nat) : WireError :=
  .message "ReadVarInt" ("non-canonical varint " ++ hex value ++
    " - discriminant " ++ hex discriminant ++ " must encode a value greater than " ++ hex minimum)

/-- Read `width` bytes behind `discriminant`; a value that a shorter form could
hold is an error. -/
def readWideVarInt (width discriminant minimum : Nat) : Decoder WireError UInt64 := do
  let buf ← readFull width
  let value := leNat buf
  .ensure (minimum ≤ value) (errNonCanonicalVarInt value discriminant minimum)
  return UInt64.ofNat value

def readVarIntAfter (discriminant : UInt8) : Decoder WireError UInt64 :=
  if discriminant = 0xff then readWideVarInt 8 0xff 0x100000000
  else if discriminant = 0xfe then readWideVarInt 4 0xfe 0x10000
  else if discriminant = 0xfd then readWideVarInt 2 0xfd 0xfd
  else return discriminant.toUInt64

def readVarInt : Decoder WireError UInt64 := do
  let first ← readFull 1
  readVarIntAfter (first.headD 0)

def writeVarInt (value : UInt64) : Bytes :=
  if value < 0xfd then [value.toUInt8]
  else if value ≤ 0xffff then 0xfd :: leBytes 2 value.toNat
  else if value ≤ 0xffffffff then 0xfe :: leBytes 4 value.toNat
  else 0xff :: leBytes 8 value.toNat

def writeVarBytes (bytes : Bytes) : Bytes :=
  writeVarInt (UInt64.ofNat bytes.length) ++ bytes

def writeOutPoint (outPoint : OutPoint) : Bytes :=
  outPoint.hash.bytes ++ leBytes 4 outPoint.index.toNat

def writeTxOut (txOut : TxOut) : Bytes :=
  leBytes 8 txOut.value.toUInt64.toNat ++ writeVarBytes txOut.pkScript

theorem run_readFull {capacity slab size : Nat} {front rest : Bytes}
    (length : front.length = size) : (readFull size).run capacity slab (front ++ rest) =
      .done front slab rest :=
  Decoder.run_readFull_append rest length

theorem run_readWideVarInt (large : minimum ≤ value.toNat)
    (fits : value.toNat < 256 ^ width) :
    (readWideVarInt width discriminant minimum).run capacity slab
        (leBytes width value.toNat ++ rest) = .done value slab rest := by
  rw [readWideVarInt, Decoder.run_bind, run_readFull (by simp)]
  simp only [leNat_leBytes_of_lt fits]
  rw [Decoder.run_bind, Decoder.ensure, if_pos large]
  simp [Decoder.run]

theorem run_readVarInt_cons (capacity slab : Nat) (discriminant : UInt8) (rest : Bytes) :
    readVarInt.run capacity slab (discriminant :: rest) =
      (readVarIntAfter discriminant).run capacity slab rest := by
  rw [readVarInt, Decoder.run_bind, show discriminant :: rest = [discriminant] ++ rest from rfl,
    @run_readFull capacity slab 1 [discriminant] rest rfl]
  rfl

theorem run_readVarIntAfter_small (capacity slab : Nat) (value : UInt64)
    (rest : Bytes) (small : value < 0xfd) : (readVarIntAfter value.toUInt8).run capacity slab rest =
      .done value slab rest := by
  have bound : value.toNat < 0xfd := UInt64.lt_iff_toNat_lt.mp small
  have byte : value.toUInt8.toNat = value.toNat := by
    rw [UInt64.toNat_toUInt8]
    omega
  have below : ∀ discriminant : UInt8, 0xfd ≤ discriminant.toNat →
      value.toUInt8 ≠ discriminant := by
    intro discriminant large equality
    rw [← equality, byte] at large
    omega
  have widened : value.toUInt8.toUInt64 = value := by
    apply UInt64.toNat_inj.mp
    rw [UInt8.toNat_toUInt64, byte]
  rw [readVarIntAfter, if_neg (below 0xff (by decide)),
    if_neg (below 0xfe (by decide)), if_neg (below 0xfd (by decide)), widened]
  rfl

theorem run_readVarInt_writeVarInt (capacity slab : Nat) (value : UInt64) (rest : Bytes) :
    readVarInt.run capacity slab (writeVarInt value ++ rest) = .done value slab rest := by
  have bound := value.toNat_lt
  unfold writeVarInt
  by_cases one : value < 0xfd
  · rw [if_pos one, List.singleton_append, run_readVarInt_cons,
      run_readVarIntAfter_small _ _ _ _ one]
  · rw [if_neg one]
    rw [UInt64.lt_iff_toNat_lt, Nat.not_lt] at one
    by_cases two : value ≤ 0xffff
    · rw [if_pos two, List.cons_append, run_readVarInt_cons]
      exact run_readWideVarInt one (Nat.lt_of_le_of_lt (UInt64.le_iff_toNat_le.mp two) (by decide))
    · rw [if_neg two]
      rw [UInt64.le_iff_toNat_le, Nat.not_le] at two
      by_cases four : value ≤ 0xffffffff
      · rw [if_pos four, List.cons_append, run_readVarInt_cons]
        exact run_readWideVarInt two
          (Nat.lt_of_le_of_lt (UInt64.le_iff_toNat_le.mp four) (by decide))
      · rw [if_neg four, List.cons_append, run_readVarInt_cons]
        rw [UInt64.le_iff_toNat_le, Nat.not_le] at four
        exact run_readWideVarInt four bound

theorem writeVarInt_prefixFree : PrefixFreeOn (fun _ => True) writeVarInt := by
  intro first second _ _ rest rest' equality
  have read := congrArg (readVarInt.run 0 0) equality
  rw [run_readVarInt_writeVarInt, run_readVarInt_writeVarInt] at read
  injection read with value _ remaining
  exact ⟨value, remaining⟩

theorem writeVarInt_ne_nil (value : UInt64) : writeVarInt value ≠ [] := by
  unfold writeVarInt
  split
  · exact List.cons_ne_nil _ _
  · split
    · exact List.cons_ne_nil _ _
    · split <;> exact List.cons_ne_nil _ _

/-- Lengths of byte slices fit 64 bits. -/
def FitsLength (bytes : Bytes) : Prop :=
  bytes.length < 2 ^ 64

theorem writeVarBytes_prefixFree : PrefixFreeOn FitsLength writeVarBytes := by
  intro first second firstFits secondFits rest rest' equality
  rw [writeVarBytes, writeVarBytes, List.append_assoc, List.append_assoc]
    at equality
  obtain ⟨lengths, remaining⟩ := writeVarInt_prefixFree trivial trivial equality
  have length : first.length = second.length := by
    have lengthsNat := congrArg UInt64.toNat lengths
    rwa [UInt64.toNat_ofNat_of_lt' firstFits, UInt64.toNat_ofNat_of_lt' secondFits] at lengthsNat
  exact List.append_inj remaining length

theorem writeVarBytes_ne_nil (bytes : Bytes) : writeVarBytes bytes ≠ [] := by
  intro empty
  exact writeVarInt_ne_nil _ (List.append_eq_nil_iff.mp empty).1

theorem leBytes_uint32_prefixFree {valid : UInt32 → Prop} :
    PrefixFreeOn valid fun value => leBytes 4 value.toNat := by
  apply PrefixFreeOn.of_width 4 (fun _ => length_leBytes _ _)
  intro first second equality
  exact UInt32.toNat_inj.mp (leBytes_injective first.toNat_lt second.toNat_lt equality)

theorem leBytes_int64_prefixFree {valid : Int64 → Prop} :
    PrefixFreeOn valid fun value => leBytes 8 value.toUInt64.toNat := by
  apply PrefixFreeOn.of_width 8 (fun _ => length_leBytes _ _)
  intro first second equality
  exact congrArg Int64.ofUInt64 (UInt64.toNat_inj.mp
    (leBytes_injective first.toUInt64.toNat_lt second.toUInt64.toNat_lt equality))

theorem writeOutPoint_prefixFree {valid : OutPoint → Prop} : PrefixFreeOn valid writeOutPoint := by
  apply PrefixFreeOn.of_width 36
  · intro outPoint
    simp [writeOutPoint]
  · intro first second equality
    obtain ⟨hash, index⟩ := List.append_inj equality (by simp)
    obtain ⟨firstHash, firstIndex⟩ := first
    obtain ⟨secondHash, secondIndex⟩ := second
    congr
    · exact FixedBytes.ext hash
    · exact UInt32.toNat_inj.mp (leBytes_injective firstIndex.toNat_lt secondIndex.toNat_lt index)

theorem writeOutPoint_ne_nil (outPoint : OutPoint) : writeOutPoint outPoint ≠ [] := by
  intro empty
  exact leBytes_ne_nil (by decide) _ (List.append_eq_nil_iff.mp empty).2

theorem writeTxOut_ne_nil (txOut : TxOut) : writeTxOut txOut ≠ [] := by
  intro empty
  exact writeVarBytes_ne_nil _ (List.append_eq_nil_iff.mp empty).2

theorem writeTxOut_prefixFree :
    PrefixFreeOn (fun txOut => FitsLength txOut.pkScript) writeTxOut := by
  intro first second firstFits secondFits rest rest' equality
  rw [writeTxOut, writeTxOut, List.append_assoc, List.append_assoc] at equality
  obtain ⟨value, scripts⟩ :=
    @leBytes_int64_prefixFree (fun _ => True) _ _ trivial trivial _ _ equality
  obtain ⟨script, remaining⟩ := writeVarBytes_prefixFree firstFits secondFits scripts
  refine ⟨?_, remaining⟩
  obtain ⟨firstValue, firstScript⟩ := first
  obtain ⟨secondValue, secondScript⟩ := second
  congr

end ModelOS.Wire
