import ModelOS.BlockChain.Money
import ModelOS.TxScript.SigHash

namespace ModelOS.Wallet

open Data Wire BlockChain TxScript

/-! The fee and dust rules, the two input sources and the loop of
`NewUnsignedTransaction`. -/

def getScriptClass (script : Bytes) : ScriptClass :=
  if script.head? = some 0x6a then .nullDataTy
  else if isPayToTaproot script then .witnessV1TaprootTy
  else if isPayToMerkleRoot script then .witnessV2MerkleRootTy
  else .nonStandardTy

/-- A script of this length parses as a small integer and a push exactly if the
second byte pushes the rest. -/
def isWitnessProgram (script : Bytes) : Bool :=
  let version := script.getD 0 0
  4 ≤ script.length ∧ script.length ≤ 42 ∧ (version = 0x00 ∨ 0x51 ≤ version ∧ version ≤ 0x60) ∧
    (script.getD 1 0).toNat = script.length - 2

/-- The number of bytes behind an opcode that belong to it, or `none` if its
length is cut off. -/
def pushLength (opcode : UInt8) (rest : Bytes) : Option Nat :=
  let prefixed (size : Nat) :=
    if rest.length < size then none else some (size + leNat (rest.take size))
  if opcode ≤ 0x4b then some opcode.toNat
  else if opcode = 0x4c then prefixed 1
  else if opcode = 0x4d then prefixed 2
  else if opcode = 0x4e then prefixed 4
  else some 0

def scriptParses : (fuel : Nat) → Bytes → Bool
  | _, [] => true
  | 0, _ :: _ => false
  | fuel + 1, opcode :: rest =>
    match pushLength opcode rest with
    | none => false
    | some length =>
      length ≤ rest.length ∧ scriptParses fuel (rest.drop length)

def maxScriptSize : Nat := 10000

def isUnspendable (pkScript : Bytes) : Bool :=
  pkScript.head? = some 0x6a ∨ maxScriptSize < pkScript.length ∨
    !scriptParses pkScript.length pkScript

def defaultRelayFeePerKb : Int64 := 1000

def getDustThreshold (txOut : TxOut) : Int64 :=
  3 * Int64.ofNat (txOut.serializeSize + 41 +
    if isWitnessProgram txOut.pkScript then calcVsize 0 107 else 107)

def isDust (txOut : TxOut) (minRelayTxFee : Int64) : Bool :=
  if isUnspendable txOut.pkScript then true
  else if txOut.value > maxGrain then true
  else if txOut.value > Int64.maxValue / 1000 then false
  else txOut.value * 1000 < getDustThreshold txOut * minRelayTxFee

def isDustOutput (output : TxOut) (relayFeePerKb : Int64) : Bool :=
  if getScriptClass output.pkScript = .nullDataTy then false
  else isDust output relayFeePerKb

def feeForSerializeSize (relayFeePerKb : Int64) (txSerializeSize : Nat) : Int64 :=
  let fee := relayFeePerKb * Int64.ofNat txSerializeSize / 1000
  let fee := if fee = 0 ∧ relayFeePerKb > 0 then relayFeePerKb else fee
  if fee < 0 ∨ fee > maxGrain then maxGrain else fee

def redeemP2TRInputSize : Nat := 32 + 4 + 1 + 0 + 4

def redeemP2TRInputWitnessWeight : Nat := 1 + 1 + 65

def p2TRPkScriptSize : Nat := 1 + 1 + 32

/-- Every input is counted as a key spend of a taproot output. -/
def estimateVirtualSize (numP2TRIns : Nat) (txOuts : List TxOut) (changeScriptSize : Nat) : Nat :=
  let changeOutputSize :=
    if 0 < changeScriptSize then
      8 + varIntSerializeSize (UInt64.ofNat changeScriptSize) + changeScriptSize
    else 0
  let outputCount := txOuts.length + if 0 < changeScriptSize then 1 else 0
  let baseSize := 8 + varIntSerializeSize (UInt64.ofNat numP2TRIns) +
    varIntSerializeSize (UInt64.ofNat outputCount) +
    numP2TRIns * redeemP2TRInputSize + (txOuts.map TxOut.serializeSize).sum +
    changeOutputSize
  let witnessWeight :=
    if 0 < numP2TRIns then
      2 + varIntSerializeSize (UInt64.ofNat numP2TRIns) + numP2TRIns * redeemP2TRInputWitnessWeight
    else 0
  calcVsize baseSize witnessWeight

def sumOutputValues (outputs : List TxOut) : Int64 :=
  outputs.foldl (fun total txOut => total + txOut.value) 0

structure Coin where
  outPoint : OutPoint
  txOut : TxOut
deriving DecidableEq

def Coin.input (coin : Coin) : TxIn :=
  ⟨coin.outPoint, [], [], 0xffffffff⟩

structure InputSource where
  current : List Coin
  eligible : List Coin
deriving DecidableEq

def makeInputSource (eligible : List Coin) : InputSource :=
  ⟨[], eligible⟩

/-- With nothing left the source answers every target alike. -/
def constantInputSource (eligible : List Coin) : InputSource :=
  ⟨eligible, []⟩

def currentTotal (coins : List Coin) : Int64 :=
  sumOutputValues (coins.map Coin.txOut)

def fetchInputs (target : Int64) (current : List Coin) : (eligible : List Coin) → InputSource
  | [] => ⟨current, []⟩
  | coin :: eligible =>
    if currentTotal current < target then
      fetchInputs target (current ++ [coin]) eligible
    else ⟨current, coin :: eligible⟩

structure ChangeSource where
  newScript : Except String Bytes
  scriptSize : Nat

structure AuthoredTx where
  tx : MsgTx
  prevScripts : List Bytes
  prevInputValues : List Int64
  totalInput : Int64
  changeIndex : Option Nat
deriving DecidableEq

/-- The call fails, or its loop has not ended within the rounds it was given. -/
inductive AuthorStop
  | error (message : String)
  | running
deriving DecidableEq

section NewUnsignedTransaction

variable (outputs : List TxOut) (feeRatePerKb : Int64)

def withChange (coins : List Coin) (maxRequiredFee : Int64) (changeScript : Bytes) : AuthoredTx :=
  let inputAmount := currentTotal coins
  let changeAmount := inputAmount - sumOutputValues outputs - maxRequiredFee
  let change : TxOut := ⟨changeAmount, changeScript⟩
  let hasChange := changeAmount ≠ 0 ∧ !isDustOutput change defaultRelayFeePerKb
  { tx := ⟨1, coins.map Coin.input, if hasChange then outputs ++ [change] else outputs, 0⟩
    prevScripts := coins.map fun coin => coin.txOut.pkScript
    prevInputValues := coins.map fun coin => coin.txOut.value
    totalInput := inputAmount
    changeIndex := if hasChange then some outputs.length else none }

def maxRequiredFee (changeSource : ChangeSource) (coins : List Coin) : Int64 :=
  feeForSerializeSize feeRatePerKb
    (estimateVirtualSize coins.length outputs changeSource.scriptSize)

def authorRounds (changeSource : ChangeSource) :
    (rounds : Nat) → (targetFee : Int64) → InputSource → Except AuthorStop AuthoredTx
  | 0, _, _ => .error .running
  | rounds + 1, targetFee, source => do
      let target := sumOutputValues outputs + targetFee
      let source := fetchInputs target source.current source.eligible
      let inputAmount := currentTotal source.current
      require (¬ inputAmount < target)
        (.error "insufficient funds available to construct transaction")
      require (∀ coin ∈ source.current, isPayToTaproot coin.txOut.pkScript ∨
          isPayToMerkleRoot coin.txOut.pkScript)
        (.error "script is not a supported address type (p2tr or p2mr)")
      let requiredFee := maxRequiredFee outputs feeRatePerKb changeSource source.current
      if inputAmount - sumOutputValues outputs < requiredFee then
        authorRounds changeSource rounds requiredFee source
      else
        let changeScript ← describe .error changeSource.newScript
        return withChange outputs source.current requiredFee changeScript

def newUnsignedTransaction (rounds : Nat) (source : InputSource)
    (changeSource : ChangeSource) : Except AuthorStop AuthoredTx :=
  -- the first estimate is for a transaction without inputs
  let estimatedSize := estimateVirtualSize 0 outputs changeSource.scriptSize
  authorRounds outputs feeRatePerKb changeSource rounds
    (feeForSerializeSize feeRatePerKb estimatedSize) source

end NewUnsignedTransaction

variable {outputs : List TxOut} {feeRatePerKb : Int64} {changeSource : ChangeSource}

theorem fetchInputs_append (target : Int64) (current eligible : List Coin) :
    (fetchInputs target current eligible).current ++
      (fetchInputs target current eligible).eligible = current ++ eligible := by
  induction eligible generalizing current with
  | nil => rfl
  | cons coin eligible ih =>
    rw [fetchInputs]
    split
    · rw [ih, List.append_assoc, List.singleton_append]
    · rfl

theorem prefix_fetchInputs (target : Int64) (current eligible : List Coin) :
    current <+: (fetchInputs target current eligible).current := by
  induction eligible generalizing current with
  | nil => exact List.prefix_rfl
  | cons coin eligible ih =>
    rw [fetchInputs]
    split
    · exact (List.prefix_append _ _).trans (ih _)
    · exact List.prefix_rfl

structure Authored (outputs : List TxOut) (feeRatePerKb : Int64)
    (changeSource : ChangeSource) (source : InputSource) (coins : List Coin)
    (changeScript : Bytes) : Prop where
  selected : coins <+: source.current ++ source.eligible
  includes : source.current <+: coins
  supported : ∀ coin ∈ coins, isPayToTaproot coin.txOut.pkScript ∨
    isPayToMerkleRoot coin.txOut.pkScript
  newScript : changeSource.newScript = .ok changeScript
  paid : ¬ currentTotal coins - sumOutputValues outputs <
    maxRequiredFee outputs feeRatePerKb changeSource coins

theorem authorRounds_ok (done : authorRounds outputs feeRatePerKb changeSource rounds
      targetFee source = .ok authored) :
    ∃ coins changeScript, Authored outputs feeRatePerKb changeSource source coins changeScript ∧
      authored = withChange outputs coins
        (maxRequiredFee outputs feeRatePerKb changeSource coins) changeScript := by
  induction rounds generalizing targetFee source with
  | zero => cases done
  | succ rounds ih =>
    have total := fetchInputs_append (sumOutputValues outputs + targetFee)
      source.current source.eligible
    have kept := prefix_fetchInputs (sumOutputValues outputs + targetFee)
      source.current source.eligible
    simp only [authorRounds, bind_eq_ok, require_eq_ok] at done
    obtain ⟨_, _, _, supported, done⟩ := done
    split at done
    · obtain ⟨coins, changeScript, later, rfl⟩ := ih done
      exact ⟨coins, changeScript, { later with
        selected := total ▸ later.selected
        includes := kept.trans later.includes }, rfl⟩
    · next paid =>
      simp only [bind_eq_ok, describe_eq_ok, pure_eq_ok] at done
      obtain ⟨changeScript, newScript, rfl⟩ := done
      exact ⟨_, changeScript, ⟨total ▸ List.prefix_append _ _, kept, supported, newScript,
        paid⟩, rfl⟩

/-- Amounts that are not negative and together are no more than all money. -/
structure InRange (outputs : List TxOut) : Prop where
  nonneg : ∀ txOut ∈ outputs, 0 ≤ txOut.value.toInt
  limit : (outputs.map fun txOut => txOut.value.toInt).sum ≤ maxGrain.toInt

namespace InRange

variable {fewer : List TxOut}

theorem sublist (range : InRange outputs) (part : fewer.Sublist outputs) : InRange fewer where
  nonneg txOut member := range.nonneg txOut (part.subset member)
  limit := by
    refine le_trans ((part.map _).sum_le_sum ?_) range.limit
    intro amount member
    obtain ⟨txOut, listed, rfl⟩ := List.mem_map.mp member
    exact range.nonneg txOut listed

theorem sum_inMoneyRange (range : InRange outputs) :
    InMoneyRange (outputs.map fun txOut => txOut.value.toInt).sum :=
  ⟨List.sum_nonneg fun amount member => by
    obtain ⟨txOut, listed, rfl⟩ := List.mem_map.mp member
    exact range.nonneg txOut listed, range.limit⟩

theorem toInt_sumOutputValues (range : InRange outputs) :
    (sumOutputValues outputs).toInt = (outputs.map fun txOut => txOut.value.toInt).sum := by
  have summed := @toInt_foldl_outputs (outputs.map TxOut.value) 0 (by
    intro count
    rw [Int64.toInt_zero, Int.zero_add, List.map_map, ← List.map_take]
    exact (range.sublist (List.take_sublist count outputs)).sum_inMoneyRange)
  rwa [List.foldl_map, List.map_map, Int64.toInt_zero, Int.zero_add] at summed

theorem perm (range : InRange outputs) (same : others.Perm outputs) :
    InRange others where
  nonneg txOut member := range.nonneg txOut (same.mem_iff.mp member)
  limit := by
    rw [(same.map fun txOut => txOut.value.toInt).sum_eq]
    exact range.limit

end InRange

theorem feeForSerializeSize_inMoneyRange (relayFeePerKb : Int64) (size : Nat) :
    InMoneyRange (feeForSerializeSize relayFeePerKb size).toInt := by
  have clamped : ∀ fee : Int64,
      InMoneyRange (if fee < 0 ∨ fee > maxGrain then maxGrain else fee).toInt := by
    intro fee
    split
    · exact ⟨by decide, le_refl _⟩
    · next range =>
      rw [not_or, Int64.not_lt, gt_iff_lt, Int64.not_lt, Int64.le_iff_toInt_le,
        Int64.le_iff_toInt_le] at range
      exact range
  exact clamped _

theorem currentTotal_inMoneyRange
    (range : InRange (coins.map Coin.txOut)) : InMoneyRange (currentTotal coins).toInt := by
  rw [currentTotal, range.toInt_sumOutputValues]
  exact range.sum_inMoneyRange

/-- The inputs pay for the outputs and the fee, and what is left is the change. -/
theorem Authored.amounts
    (authored : Authored outputs feeRatePerKb changeSource source coins changeScript)
    (coinsRange : InRange (coins.map Coin.txOut)) (nonneg : 0 ≤ (sumOutputValues outputs).toInt) :
    InMoneyRange (currentTotal coins).toInt ∧
      InMoneyRange (currentTotal coins - sumOutputValues outputs -
        maxRequiredFee outputs feeRatePerKb changeSource coins).toInt ∧
      (currentTotal coins).toInt = (sumOutputValues outputs).toInt +
        (maxRequiredFee outputs feeRatePerKb changeSource coins).toInt +
        (currentTotal coins - sumOutputValues outputs -
          maxRequiredFee outputs feeRatePerKb changeSource coins).toInt := by
  have totalRange := currentTotal_inMoneyRange coinsRange
  have feeRange : InMoneyRange (maxRequiredFee outputs feeRatePerKb changeSource coins).toInt :=
    feeForSerializeSize_inMoneyRange _ _
  have paid := authored.paid
  generalize maxRequiredFee outputs feeRatePerKb changeSource coins = fee at *
  have high := (sumOutputValues outputs).toInt_lt
  obtain ⟨totalLow, totalHigh⟩ := totalRange
  obtain ⟨feeLow, feeHigh⟩ := feeRange
  have small := toInt_maxGrain
  have left : (currentTotal coins - sumOutputValues outputs).toInt =
      (currentTotal coins).toInt - (sumOutputValues outputs).toInt := by
    exact toInt_sub_of_fits rfl rfl (by omega) (by omega)
  rw [Int64.not_lt, Int64.le_iff_toInt_le, left] at paid
  have change : (currentTotal coins - sumOutputValues outputs - fee).toInt =
      (currentTotal coins).toInt - (sumOutputValues outputs).toInt - fee.toInt :=
    toInt_sub_of_fits left rfl (by omega) (by omega)
  refine ⟨⟨totalLow, totalHigh⟩, ?_, by omega⟩
  constructor <;> omega

theorem txOut_withChange (coins : List Coin) (fee : Int64) (script : Bytes) :
    (∃ change, (withChange outputs coins fee script).tx.txOut = outputs ++ [change] ∧
      (withChange outputs coins fee script).changeIndex = some outputs.length ∧
      change = ⟨currentTotal coins - sumOutputValues outputs - fee, script⟩ ∧
      change.value ≠ 0 ∧ isDustOutput change defaultRelayFeePerKb = false) ∨
    (withChange outputs coins fee script).tx.txOut = outputs ∧
      (withChange outputs coins fee script).changeIndex = none := by
  simp only [withChange]
  split
  · next kept =>
    rw [Bool.not_eq_true'] at kept
    exact .inl ⟨_, rfl, rfl, rfl, kept⟩
  · exact .inr ⟨rfl, rfl⟩

theorem Authored.inRange
    (authored : Authored outputs feeRatePerKb changeSource source coins changeScript)
    (coinsRange : InRange (coins.map Coin.txOut))
    (nonneg : ∀ txOut ∈ outputs, 0 ≤ txOut.value.toInt)
    (exactly : (sumOutputValues outputs).toInt = (outputs.map fun txOut => txOut.value.toInt).sum) :
    InRange (withChange outputs coins
      (maxRequiredFee outputs feeRatePerKb changeSource coins) changeScript).tx.txOut ∧
      (sumOutputValues outputs).toInt ≤ (currentTotal coins).toInt := by
  obtain ⟨⟨_, total⟩, ⟨changeLow, _⟩, balance⟩ := authored.amounts coinsRange (by
    rw [exactly]
    exact List.sum_nonneg fun amount member => by
      obtain ⟨txOut, listed, rfl⟩ := List.mem_map.mp member
      exact nonneg txOut listed)
  obtain ⟨feeLow, _⟩ : InMoneyRange (maxRequiredFee outputs feeRatePerKb changeSource
    coins).toInt := feeForSerializeSize_inMoneyRange _ _
  refine ⟨?_, by omega⟩
  rcases @txOut_withChange outputs coins (maxRequiredFee outputs feeRatePerKb changeSource
    coins) changeScript with ⟨change, listed, -, isChange, -⟩ | ⟨listed, -⟩
  · have value : change.value.toInt = _ := congrArg (fun txOut => txOut.value.toInt) isChange
    rw [listed]
    constructor
    · simp only [List.forall_mem_append, List.forall_mem_singleton]
      exact ⟨nonneg, value ▸ changeLow⟩
    · rw [List.map_append, List.sum_append, ← exactly]
      simp only [List.map_cons, List.map_nil, List.sum_cons, List.sum_nil, value]
      omega
  · rw [listed]
    exact ⟨nonneg, by omega⟩

end ModelOS.Wallet
