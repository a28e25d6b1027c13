import ModelOS.BlockChain.TxSanity

namespace ModelOS.BlockChain

open Data Wire

/-! The height in a coinbase is read by a decoder that keeps four bytes of any push; the
push of the height it reads has to be the start of the script again. -/

theorem leNat_scriptNumMagnitude (bound : magnitude < 256 ^ fuel) :
    leNat (scriptNumMagnitude fuel magnitude) = magnitude := by
  induction fuel generalizing magnitude with
  | zero =>
    rw [pow_zero] at bound
    exact (Nat.lt_one_iff.mp bound).symm
  | succ fuel ih =>
    rw [Nat.pow_succ'] at bound
    have lower := ih (Nat.div_lt_of_lt_mul bound)
    rw [scriptNumMagnitude]
    split
    · next zero => rw [zero, leNat]
    · rw [leNat, lower, UInt8.toNat_ofNat_of_lt' (Nat.mod_lt _ (by decide)),
        Nat.mod_add_div]

theorem length_scriptNumMagnitude_le (fuel : Nat)
    (bound : magnitude < 256 ^ width) : (scriptNumMagnitude fuel magnitude).length ≤ width := by
  induction width generalizing fuel magnitude with
  | zero =>
    rw [Nat.lt_one_iff.mp bound]
    cases fuel <;> exact le_rfl
  | succ width ih =>
    rw [Nat.pow_succ'] at bound
    cases fuel with
    | zero => exact Nat.zero_le _
    | succ fuel =>
      rw [scriptNumMagnitude]
      split
      · exact Nat.zero_le _
      · exact Nat.succ_le_succ (ih fuel (Nat.div_lt_of_lt_mul bound))

theorem leNat_copy (short : source.length ≤ size) :
    leNat (FixedBytes.copy size source).bytes = leNat source := by
  have padded (count : Nat) : leNat (source ++ List.replicate count 0) = leNat source := by
    induction count with
    | zero => rw [List.replicate_zero, List.append_nil]
    | succ count ih => rw [List.replicate_succ', ← List.append_assoc, leNat_append_zero, ih]
  change leNat ((source ++ List.replicate size 0).take size) = leNat source
  rw [List.take_append, List.take_of_length_le short, List.take_replicate]
  exact padded _

theorem leNat_concat (bytes : Bytes) (top : UInt8) :
    leNat (bytes ++ [top]) = leNat bytes + top.toNat * 256 ^ bytes.length := by
  induction bytes with
  | nil => simp [leNat]
  | cons byte rest ih =>
    rw [List.cons_append, leNat, ih, leNat, List.length_cons, Nat.pow_succ]
    ring

theorem signBit_le {byte : UInt8} (taken : byte &&& 0x80 ≠ 0) : 0x80 ≤ byte.toNat := by
  by_contra low
  rw [Ne, ← UInt8.toNat_inj, UInt8.toNat_and] at taken
  refine taken ((Nat.and_two_pow _ 7).trans ?_)
  rw [Nat.testBit_lt_two_pow (Nat.lt_of_not_le low)]
  rfl

/-- A non-negative 32-bit number takes four bytes at most: the byte that is added for the
sign finds the top bit of the number taken. -/
theorem scriptNumBytes_spec {value : Nat} (positive : 0 < value) (small : value < 2 ^ 31) :
    leNat (scriptNumBytes value) = value ∧ (scriptNumBytes value).length ≤ 4 := by
  have magnitude : leNat (scriptNumMagnitude 9 value) = value :=
    leNat_scriptNumMagnitude (by omega)
  have short := length_scriptNumMagnitude_le 9 (show value < 256 ^ 4 by omega)
  have positive' : ¬ (value : Int) < 0 := by omega
  rw [scriptNumBytes, if_neg (by omega)]
  simp only [Int.natAbs_natCast, if_neg positive']
  split
  · next taken =>
    rw [leNat_append_zero, List.length_append, List.length_singleton]
    refine ⟨magnitude, Nat.succ_le_of_lt (lt_of_le_of_ne short ?_)⟩
    intro four
    obtain ⟨init, top, split⟩ := (List.eq_nil_or_concat (scriptNumMagnitude 9 value)).resolve_left
      (by intro empty; rw [empty] at four; exact absurd four (by decide))
    rw [split, List.concat_eq_append] at taken four magnitude
    rw [List.getLastD_concat] at taken
    rw [leNat_concat] at magnitude
    rw [List.length_append, List.length_singleton] at four
    have high := signBit_le taken
    have length : init.length = 3 := by omega
    rw [length] at magnitude
    omega
  · exact ⟨magnitude, short⟩

variable {coinbaseTx : MsgTx} {height : Int32} {script rest : Bytes}

theorem addInt64_of_small {value : Nat} (positive : 0 < value) (small : value ≤ 16) :
    addInt64 value = [UInt8.ofNat (0x50 + value)] := by
  rw [addInt64, if_neg (by omega), if_pos (by omega)]
  rfl

theorem addInt64_of_large (large : 16 < value) :
    addInt64 value = UInt8.ofNat (scriptNumBytes value).length :: scriptNumBytes value := by
  rw [addInt64, if_neg (by omega), if_neg (by omega)]

theorem push_of_extractCoinbaseHeight (ok : extractCoinbaseHeight coinbaseTx = .ok height)
    (carried : (coinbaseTx.txIn.head?.map TxIn.signatureScript).getD [] = script) :
    addInt64 height.toInt <+: script := by
  rw [extractCoinbaseHeight, carried] at ok
  cases script with
  | nil => cases ok
  | cons opcode script =>
    simp only at ok
    split at ok
    · next zero =>
      cases ok
      exact ⟨script, by rw [zero]; rfl⟩
    split at ok
    · next small =>
      obtain ⟨low, high⟩ := small
      rw [UInt8.le_iff_toNat_le] at low high
      change 0x51 ≤ opcode.toNat at low
      change opcode.toNat ≤ 0x60 at high
      cases ok
      rw [Int32.toInt_ofNat_of_lt (by omega), addInt64_of_small (by omega) (by omega),
        Nat.add_sub_cancel' (by omega), UInt8.ofNat_toNat]
      exact ⟨script, rfl⟩
    · simp only [bind_eq_ok, require_eq_ok, pure_eq_ok] at ok
      obtain ⟨-, -, -, starts, rfl⟩ := ok
      exact List.isPrefixOf_iff_prefix.mp starts

theorem extractCoinbaseHeight_of_push (nonnegative : 0 ≤ height)
    (carried : (coinbaseTx.txIn.head?.map TxIn.signatureScript).getD [] =
      addInt64 height.toInt ++ rest) : extractCoinbaseHeight coinbaseTx = .ok height := by
  obtain ⟨value, exact⟩ := Int.eq_ofNat_of_zero_le (Int32.le_iff_toInt_le.mp nonnegative)
  have bound : value < 2 ^ 31 := by
    have := height.toInt_lt
    omega
  have decoded : (UInt32.ofNat value).toInt32 = height := by
    rw [← Int32.toInt_inj, exact]
    exact Int32.toInt_ofNat_of_lt bound
  rw [extractCoinbaseHeight, carried, exact]
  rcases Nat.eq_zero_or_pos value with rfl | positive
  · rw [← decoded]
    rfl
  by_cases small : value ≤ 16
  · have opcode : (UInt8.ofNat (0x50 + value)).toNat = 0x50 + value :=
      UInt8.toNat_ofNat_of_lt' (by change _ < 256; omega)
    rw [addInt64_of_small positive small, List.singleton_append]
    simp only
    rw [if_neg, if_pos, opcode, Nat.add_sub_cancel_left]
    · rw [← decoded]
      rfl
    · rw [UInt8.le_iff_toNat_le, UInt8.le_iff_toNat_le, opcode]
      change 0x51 ≤ _ ∧ _ ≤ 0x60
      omega
    · rw [← UInt8.toNat_inj, opcode]
      exact (Nat.add_pos_left (by decide) value).ne'
  · obtain ⟨read, short⟩ := scriptNumBytes_spec positive bound
    have opcode : (UInt8.ofNat (scriptNumBytes value).length).toNat =
        (scriptNumBytes value).length := UInt8.toNat_ofNat_of_lt' (by change _ < 256; omega)
    rw [addInt64_of_large (by omega), List.cons_append]
    simp only
    rw [if_neg, if_neg]
    · simp only [bind_eq_ok, require_eq_ok, pure_eq_ok, opcode, List.take_left]
      have copied := (leNat_copy short).trans read
      rw [copied, decoded, exact, addInt64_of_large (by omega)]
      refine ⟨(), ?_, (), List.isPrefixOf_iff_prefix.mpr ⟨rest, rfl⟩, rfl⟩
      rw [List.length_append]
      omega
    · rw [UInt8.le_iff_toNat_le, opcode]
      change ¬ (0x51 ≤ _ ∧ _)
      omega
    · rw [← UInt8.toNat_inj, opcode]
      intro empty
      rw [List.length_eq_zero_iff.mp empty] at read
      exact positive.ne read

theorem checkSerializedHeight_eq_ok :
    checkSerializedHeight coinbaseTx height = .ok () ↔
      extractCoinbaseHeight coinbaseTx = .ok height := by
  simp [checkSerializedHeight]

/-- The check holds a coinbase to its height exactly, so that no coinbase stands at two
heights. -/
theorem checkSerializedHeight_iff {input : TxIn} {inputs : List TxIn}
    (spends : coinbaseTx.txIn = input :: inputs) (nonnegative : 0 ≤ height) :
    (checkSerializedHeight coinbaseTx height = .ok () ↔
      addInt64 height.toInt <+: input.signatureScript) ∧
    ∀ (other : MsgTx) (otherHeight : Int32),
      checkSerializedHeight coinbaseTx height = .ok () →
      checkSerializedHeight other otherHeight = .ok () →
      height ≠ otherHeight → coinbaseTx ≠ other := by
  have carried : (coinbaseTx.txIn.head?.map TxIn.signatureScript).getD [] =
      input.signatureScript := by
    rw [spends]
    rfl
  constructor
  · rw [checkSerializedHeight_eq_ok]
    constructor
    · intro ok
      exact push_of_extractCoinbaseHeight ok carried
    · rintro ⟨rest, starts⟩
      exact extractCoinbaseHeight_of_push nonnegative (carried.trans starts.symm)
  · intro other otherHeight ok otherOk different same
    rw [checkSerializedHeight_eq_ok] at ok otherOk
    rw [same, otherOk] at ok
    exact different (Except.ok.inj ok).symm

theorem checkSerializedHeight_iff_signBit :
    let input : TxIn := ⟨⟨FixedBytes.zero 32, 0xffffffff⟩, [2, 0x80, 0], [], 0⟩
    checkSerializedHeight ⟨1, [input], [], 0⟩ 128 = .ok () :=
  (checkSerializedHeight_iff rfl (by decide)).1.mpr ⟨[], rfl⟩

end ModelOS.BlockChain
