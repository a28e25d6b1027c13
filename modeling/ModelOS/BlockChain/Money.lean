import ModelOS.Data.MachineInt
import ModelOS.BlockChain.AcceptedChain
import ModelOS.BlockChain.BodyVerdict
import ModelOS.BlockChain.TxSanity
import ModelOS.Data.LedgerTotal

namespace ModelOS.BlockChain

open Data Wire

/-! The accounts of a transaction in unbounded integers, and how the 64-bit checks
follow them. -/

def InMoneyRange (amount : Int) : Prop :=
  0 ≤ amount ∧ amount ≤ maxGrain.toInt

theorem toInt_maxGrain : maxGrain.toInt = 21000000000000000 :=
  rfl

theorem inMoneyRange_zero : InMoneyRange (0 : Int64).toInt :=
  ⟨by decide, by decide⟩

theorem toInt_add_of_inMoneyRange {first second : Int64}
    (firstRange : InMoneyRange first.toInt) (secondRange : InMoneyRange second.toInt) :
    (first + second).toInt = first.toInt + second.toInt := by
  obtain ⟨firstLow, firstHigh⟩ := firstRange
  obtain ⟨secondLow, secondHigh⟩ := secondRange
  rw [toInt_maxGrain] at firstHigh secondHigh
  exact toInt_add_of_fits rfl rfl (by omega) (by omega)

/-- A loop that adds amounts in the money range and stops above its limit. -/
def Totals {ε α : Type} (body : Int64 → α → Except ε Int64) (amount : α → Int64) : Prop :=
  ∀ {total entry after}, body total entry = .ok after →
    after = total + amount entry ∧ InMoneyRange (amount entry).toInt ∧ after.toInt ≤ maxGrain.toInt

theorem Totals.exact {start last : Int64} {body : Int64 → α → Except ε Int64}
    {amount : α → Int64} (totals : Totals body amount)
    {entries : List α} (range : InMoneyRange start.toInt)
    (finished : entries.foldlM body start = .ok last) :
    last.toInt = start.toInt + (entries.map fun entry => (amount entry).toInt).sum ∧
    (∀ count, InMoneyRange (start.toInt +
      ((entries.map fun entry => (amount entry).toInt).take count).sum)) ∧
    ∀ value ∈ entries.map fun entry => (amount entry).toInt, InMoneyRange value := by
  induction entries generalizing start with
  | nil =>
    cases finished
    simpa using range
  | cons entry entries ih =>
    rw [List.foldlM_cons, bind_eq_ok] at finished
    obtain ⟨middle, first, others⟩ := finished
    obtain ⟨next, amountRange, limit⟩ := totals first
    have exact := toInt_add_of_inMoneyRange range amountRange
    rw [← next] at exact
    have middleRange : InMoneyRange middle.toInt := by
      refine ⟨?_, limit⟩
      rw [exact]
      exact Int.add_nonneg range.1 amountRange.1
    obtain ⟨sum, partials, values⟩ := ih middleRange others
    rw [exact] at sum partials
    refine ⟨?_, ?_, ?_⟩
    · rw [sum, List.map_cons, List.sum_cons, Int.add_assoc]
    · intro count
      cases count with
      | zero => simpa using range
      | succ count =>
        rw [List.map_cons, List.take_succ_cons, List.sum_cons, ← Int.add_assoc]
        exact partials count
    · rw [List.map_cons]
      exact List.forall_mem_cons.mpr ⟨amountRange, values⟩

def issuedBy (tx : MsgTx) : Int :=
  match extractInferenceGoPayload tx with
  | .ok payload => payload.amount.toNat
  | .error _ => 0

def coinAmount (coin : SpentTxOut) : Int :=
  coin.amount.toInt

structure TxAccount where
  inputs : List Int
  outputs : List Int
  issued : Int
  fee : Int

def outputAmounts (tx : MsgTx) : List Int :=
  tx.txOut.map fun txOut => txOut.value.toInt

def inputAmounts (ledger : Ledger OutPoint SpentTxOut) (tx : MsgTx) : List Int :=
  if isCoinBaseTx tx then []
  else tx.txIn.map fun txIn =>
    Ledger.worth coinAmount (ledger txIn.previousOutPoint)

def txAccount (ledger : Ledger OutPoint SpentTxOut) (tx : MsgTx) : TxAccount where
  inputs := inputAmounts ledger tx
  outputs := outputAmounts tx
  issued := issuedBy tx
  fee :=
    if isCoinBaseTx tx then 0
    else (inputAmounts ledger tx).sum + issuedBy tx - (outputAmounts tx).sum

/-- Every amount and every running total is in the money range. -/
structure TxAccount.Exact (account : TxAccount) : Prop where
  amounts : ∀ amount ∈ account.inputs ++ account.outputs, InMoneyRange amount
  inputs : ∀ count, InMoneyRange (account.inputs.take count).sum
  outputs : ∀ count, InMoneyRange (account.outputs.take count).sum
  issued : InMoneyRange account.issued
  available : InMoneyRange (account.inputs.sum + account.issued)
  fee : InMoneyRange account.fee

section Checks

variable {rules : ChainRules} {inference : InferenceRules} {tx : MsgTx}
  {entries : UtxoEntries} {height : Int32} {issued fee : Int64}

theorem totals_checkTransactionOutput :
    Totals (checkTransactionOutput inference) fun output => output.1.value := by
  intro total entry after checked
  simp only [checkTransactionOutput, bind_eq_ok, require_eq_ok, pure_eq_ok,
    Int64.lt_iff_toInt_lt, gt_iff_lt, not_lt] at checked
  obtain ⟨_, _, _, low, _, high, _, _, _, limit, rfl⟩ := checked
  exact ⟨rfl, ⟨low, high⟩, limit⟩

theorem map_zipIdx_txOut (tx : MsgTx) :
    (tx.txOut.zipIdx.map fun output => output.1.value.toInt) = outputAmounts tx := by
  rw [outputAmounts, ← List.zipIdx_map_fst 0 tx.txOut, List.map_map, List.zipIdx_map_fst]
  rfl

theorem outputs_of_checkTransactionOutputs
    (checked : checkTransactionOutputs inference tx = .ok ()) :
    (∀ count, InMoneyRange ((outputAmounts tx).take count).sum) ∧
      ∀ amount ∈ outputAmounts tx, InMoneyRange amount := by
  simp only [checkTransactionOutputs, bind_eq_ok] at checked
  obtain ⟨_, _, _, _, _, _, total, looped, _⟩ := checked
  obtain ⟨_, partials, amounts⟩ := totals_checkTransactionOutput.exact inMoneyRange_zero looped
  rw [map_zipIdx_txOut] at partials amounts
  exact ⟨by simpa using partials, amounts⟩

theorem totals_checkTransactionInput :
    Totals (checkTransactionInput rules tx height entries) fun input =>
      ((lookupUnspent entries input.1.previousOutPoint).map
        fun utxo => utxo.amount).getD 0 := by
  intro total entry after checked
  simp only [checkTransactionInput, bind_eq_ok, require_eq_ok, present_eq_ok, pure_eq_ok,
    Int64.lt_iff_toInt_lt, gt_iff_lt, not_lt, not_or] at checked
  obtain ⟨utxo, found, _, _, _, low, _, high, _, ⟨_, limit⟩, rfl⟩ := checked
  simp only [found, Option.map_some, Option.getD_some]
  exact ⟨trivial, ⟨low, high⟩, limit⟩

theorem worth_unspent_eq
    (found : lookupUnspent entries outPoint = some utxo) :
    Ledger.worth coinAmount (entries.unspent outPoint) = utxo.amount.toInt := by
  rw [lookupUnspent_eq_some found]
  rfl

theorem worth_unspent_eq_zero
    (absent : lookupUnspent entries outPoint = none) :
    Ledger.worth coinAmount (entries.unspent outPoint) = 0 := by
  rw [lookupUnspent_eq_none absent]
  rfl

theorem inputs_eq_map (notCoinBase : isCoinBaseTx tx = false) : (tx.txIn.zipIdx.map fun input =>
      ((((lookupUnspent entries input.1.previousOutPoint).map
        fun utxo => utxo.amount).getD 0 : Int64)).toInt) =
      inputAmounts entries.unspent tx := by
  have amount : ∀ txIn : TxIn,
      ((((lookupUnspent entries txIn.previousOutPoint).map
        fun utxo => utxo.amount).getD 0 : Int64)).toInt =
      Ledger.worth coinAmount (entries.unspent txIn.previousOutPoint) := by
    intro txIn
    cases found : lookupUnspent entries txIn.previousOutPoint with
    | none => rw [worth_unspent_eq_zero found]; rfl
    | some utxo => rw [worth_unspent_eq found]; rfl
  have values : (tx.txIn.map fun txIn =>
      ((((lookupUnspent entries txIn.previousOutPoint).map
        fun utxo => utxo.amount).getD 0 : Int64)).toInt) =
      inputAmounts entries.unspent tx := by
    rw [inputAmounts, if_neg (by simp [notCoinBase])]
    exact List.map_congr_left fun txIn _ => amount txIn
  rw [← values, ← List.zipIdx_map_fst 0 tx.txIn, List.map_map, List.zipIdx_map_fst]
  rfl

theorem issued_of_checkInferenceGoTx
    (checked : checkInferenceGoTx inference network tx node = .ok issued) :
    issued.toInt = issuedBy tx ∧ InMoneyRange (issuedBy tx) ∧
      (isCoinBaseTx tx = true → issuedBy tx = 0) := by
  rw [checkInferenceGoTx, checkInferenceGoIssuance] at checked
  split at checked
  · next otherVersion =>
    obtain rfl := Except.ok.inj checked
    have none : issuedBy tx = 0 := by
      rw [issuedBy, extractInferenceGoPayload, if_pos otherVersion]
    rw [none]
    exact ⟨rfl, inMoneyRange_zero, fun _ => rfl⟩
  · simp only [validateInferenceGoTx, bind_eq_ok, require_eq_ok, describe_eq_ok,
      present_eq_ok, pure_eq_ok] at checked
    obtain ⟨_, _, _, notCoinBase, _, _, payload, extracted, _, _, _, limit, _,
      positive, _, _, _, _, _, _, _, _, _, _, rfl⟩ := checked
    have bound : payload.amount.toNat < 2 ^ 63 := by
      have : maxGrain.toInt.toNat < 2 ^ 63 := by decide
      omega
    have amount : payload.amount.toInt64.toInt = payload.amount.toNat := by
      change payload.amount.toBitVec.toInt = _
      rw [BitVec.toInt_eq_toNat_of_lt]
      · rfl
      · change 2 * payload.amount.toNat < _
        omega
    have issuedEq : issuedBy tx = payload.amount.toNat := by
      rw [issuedBy, extracted]
    rw [issuedEq]
    refine ⟨amount, ⟨by omega, ?_⟩, ?_⟩
    · have := Int.toNat_of_nonneg (show 0 ≤ maxGrain.toInt by decide)
      omega
    · intro isCoinBase
      exact absurd isCoinBase notCoinBase

theorem toInt_foldl_outputs {values : List Int64} {start : Int64}
    (partials : ∀ count, InMoneyRange (start.toInt + ((values.map Int64.toInt).take count).sum)) :
    (values.foldl (· + ·) start).toInt = start.toInt + (values.map Int64.toInt).sum := by
  induction values generalizing start with
  | nil => simp
  | cons value values ih =>
    have first : (start + value).toInt = start.toInt + value.toInt := by
      have range := partials 1
      simp only [List.map_cons, List.take_succ_cons, List.take_zero, List.sum_cons,
        List.sum_nil, Int.add_zero] at range
      obtain ⟨low, high⟩ := range
      rw [toInt_maxGrain] at high
      exact toInt_add_of_fits rfl rfl (by omega) (by omega)
    rw [List.foldl_cons, ih, first, List.map_cons, List.sum_cons, Int.add_assoc]
    intro count
    have range := partials (count + 1)
    rw [List.map_cons, List.take_succ_cons, List.sum_cons, ← Int.add_assoc] at range
    rwa [first]

theorem totalGrainOut_eq (outputs : ∀ count, InMoneyRange ((outputAmounts tx).take count).sum) :
    ((tx.txOut.map TxOut.value).foldl (· + ·) 0).toInt = (outputAmounts tx).sum := by
  have same : (tx.txOut.map TxOut.value).map Int64.toInt = outputAmounts tx := by
    rw [List.map_map]
    rfl
  rw [toInt_foldl_outputs]
  · rw [same]
    exact Int.zero_add _
  · intro count
    rw [same]
    simpa using outputs count

theorem exact_of_isCoinBaseTx (isCoinBase : isCoinBaseTx tx = true)
    (outputs : checkTransactionOutputs inference tx = .ok ())
    (issuedRange : InMoneyRange (issuedBy tx)) :
    (txAccount ledger tx).Exact ∧ (0 : Int64).toInt = (txAccount ledger tx).fee := by
  obtain ⟨outputTotals, outputRanges⟩ := outputs_of_checkTransactionOutputs outputs
  have noInputs : inputAmounts ledger tx = [] := by
    rw [inputAmounts, if_pos isCoinBase]
  have zero : InMoneyRange 0 := inMoneyRange_zero
  refine ⟨⟨?_, ?_, outputTotals, issuedRange, ?_, ?_⟩, ?_⟩
  · simpa [txAccount, noInputs] using outputRanges
  · simpa [txAccount, noInputs] using zero
  · simpa [txAccount, noInputs] using issuedRange
  · simpa [txAccount, isCoinBase] using zero
  · simp [txAccount, isCoinBase]

/-- Without an issuance nothing is added to the inputs. -/
theorem toInt_available {available total issued : Int64}
    (isSum : (if (0 : Int64).toInt < issued.toInt then total + issued else total) = available)
    (totalRange : InMoneyRange total.toInt) (issuedRange : InMoneyRange issued.toInt)
    (bounded : (0 : Int64).toInt < issued.toInt → available.toInt ≤ maxGrain.toInt) :
    available.toInt = total.toInt + issued.toInt ∧ InMoneyRange available.toInt := by
  have nonneg := issuedRange.1
  rw [Int64.toInt_zero] at isSum bounded
  split at isSum
  · next positive =>
    have sum := toInt_add_of_inMoneyRange totalRange issuedRange
    rw [isSum] at sum
    exact ⟨sum, by rw [sum]; exact Int.add_nonneg totalRange.1 nonneg, bounded positive⟩
  · next none =>
    have none : issued.toInt = 0 := by omega
    rw [← isSum, none, Int.add_zero]
    exact ⟨rfl, totalRange⟩

theorem toInt_fee {available : Int64} (availableRange : InMoneyRange available.toInt)
    (outputs : ∀ count, InMoneyRange ((outputAmounts tx).take count).sum)
    (enough : (outputAmounts tx).sum ≤ available.toInt) :
    (available - (tx.txOut.map TxOut.value).foldl (· + ·) 0).toInt =
      available.toInt - (outputAmounts tx).sum ∧
    InMoneyRange (available.toInt - (outputAmounts tx).sum) := by
  obtain ⟨_, high⟩ := availableRange
  have whole := outputs (outputAmounts tx).length
  rw [List.take_length] at whole
  obtain ⟨low, _⟩ := whole
  refine ⟨?_, by omega, by omega⟩
  rw [toInt_maxGrain] at high
  rw [Int64.toInt_sub, totalGrainOut_eq outputs]
  apply Int.bmod_eq_of_le <;> omega

theorem exact_of_checkTransactionInputs (outputs : checkTransactionOutputs inference tx = .ok ())
    (issuedEq : issued.toInt = issuedBy tx) (issuedRange : InMoneyRange (issuedBy tx))
    (checked : checkTransactionInputsWithIssuance rules tx height entries issued = .ok fee) :
    (txAccount entries.unspent tx).Exact ∧ fee.toInt = (txAccount entries.unspent tx).fee := by
  obtain ⟨outputTotals, outputRanges⟩ := outputs_of_checkTransactionOutputs outputs
  rw [checkTransactionInputsWithIssuance] at checked
  split at checked
  · next isCoinBase =>
    obtain rfl := Except.ok.inj checked
    exact exact_of_isCoinBaseTx isCoinBase outputs issuedRange
  · next notCoinBase =>
    simp only [Bool.not_eq_true] at notCoinBase
    simp only [bind_eq_ok, require_eq_ok, pure_eq_ok, Int64.lt_iff_toInt_lt, gt_iff_lt,
      not_lt, not_or] at checked
    obtain ⟨total, summed, _, _, _, allowance, _, enough, rfl⟩ := checked
    obtain ⟨totalEq, inputTotals, inputRanges⟩ :=
      totals_checkTransactionInput.exact inMoneyRange_zero summed
    rw [inputs_eq_map notCoinBase] at totalEq inputTotals inputRanges
    simp only [Int64.toInt_zero, Int.zero_add] at totalEq inputTotals
    have totalRange : InMoneyRange total.toInt := by
      have whole := inputTotals (inputAmounts entries.unspent tx).length
      rwa [List.take_length, ← totalEq] at whole
    generalize availableIs : (if (0 : Int64).toInt < issued.toInt then
      total + issued else total) = available at *
    obtain ⟨availableEq, availableRange⟩ := toInt_available availableIs totalRange
      (by rwa [issuedEq]) fun positive => (allowance positive).2
    rw [totalGrainOut_eq outputTotals] at enough
    obtain ⟨feeEq, feeRange⟩ := toInt_fee availableRange outputTotals enough
    have accountFee : (txAccount entries.unspent tx).fee =
        available.toInt - (outputAmounts tx).sum := by
      simp only [txAccount, notCoinBase, Bool.false_eq_true, if_false]
      omega
    refine ⟨⟨?_, inputTotals, outputTotals, issuedRange, ?_, ?_⟩, ?_⟩
    · intro amount member
      rcases List.mem_append.mp member with input | output
      · exact inputRanges amount input
      · exact outputRanges amount output
    · rw [availableEq, totalEq, issuedEq] at availableRange
      exact availableRange
    · rw [accountFee]
      exact feeRange
    · rw [feeEq, accountFee]

/-- One round of the loop of `checkConnectBlock`, in 64-bit numbers and in
accounts. -/
structure ExactStep (rules : ChainRules) (node : BlockNode) (entries : UtxoEntries)
    (totalFees : Int64) (tx : MsgTx) : Prop where
  account : (txAccount entries.unspent tx).Exact
  outputs : ((tx.txOut.map TxOut.value).foldl (· + ·) 0).toInt =
    (txAccount entries.unspent tx).outputs.sum
  computed : ∃ issued fee, rules.checkInferenceGoTx tx node = .ok issued ∧
    checkTransactionInputsWithIssuance rules tx node.height entries issued = .ok fee ∧
    issued.toInt = (txAccount entries.unspent tx).issued ∧
    fee.toInt = (txAccount entries.unspent tx).fee ∧
    (totalFees + fee).toInt = totalFees.toInt + fee.toInt
  nonneg : 0 ≤ totalFees.toInt

variable {entries after : UtxoEntries}

theorem exactStep_of_checkConnectTransaction
    (outputs : checkTransactionOutputs inference tx = .ok ()) (nonneg : 0 ≤ totalFees.toInt)
    (checked : checkConnectTransaction (rules.withInference inference) node
      (entries, totalFees) tx = .ok (after, nextFees)) :
    ExactStep (rules.withInference inference) node entries totalFees tx ∧
      nextFees.toInt = totalFees.toInt + (txAccount entries.unspent tx).fee ∧
      after.unspent = entries.unspent.apply
        (txTransfer (rules.withInference inference).toTxRules node.height tx) := by
  simp only [checkConnectTransaction, bind_eq_ok, describe_eq_ok, require_eq_ok, pure_eq_ok,
    Prod.mk.injEq] at checked
  obtain ⟨issued, issues, fee, spends, _, _, _, grows, _, connected, moved, rfl⟩ := checked
  obtain ⟨issuedEq, issuedRange, _⟩ := issued_of_checkInferenceGoTx issues
  obtain ⟨exact, feeEq⟩ := exact_of_checkTransactionInputs outputs issuedEq issuedRange spends
  -- a sum that wraps around is negative, and less than before
  have sum : (totalFees + fee).toInt = totalFees.toInt + fee.toInt := by
    obtain ⟨low, high⟩ := exact.fee
    rw [← feeEq] at low high
    rw [toInt_maxGrain] at high
    rw [Int64.lt_iff_toInt_lt] at grows
    by_cases fits : totalFees.toInt + fee.toInt < 2 ^ 63
    · exact toInt_add_of_fits rfl rfl (by omega) (by omega)
    · exfalso
      apply grows
      have bound := totalFees.toInt_lt
      rw [Int64.toInt_add, Int.bmod_def]
      split <;> omega
  refine ⟨⟨exact, totalGrainOut_eq exact.outputs, ⟨issued, fee, issues, spends, issuedEq,
    feeEq, sum⟩, nonneg⟩, ?_, unspent_connectTransaction (Prod.ext moved connected)⟩
  rw [sum, feeEq]

end Checks

section Conservation

variable {rules : ChainRules} {inference : InferenceRules} {tx : MsgTx}
  {blockHeight : Int32} {ledger : Ledger OutPoint SpentTxOut}

def NonNeg (ledger : Ledger OutPoint SpentTxOut) : Prop :=
  ∀ outPoint coin, ledger outPoint = some coin → 0 ≤ coinAmount coin

theorem created_amounts (txRules : TxRules) (tx : MsgTx) (blockHeight : Int32) :
    List.Sublist ((txTransfer txRules blockHeight tx).created.map
      fun entry => coinAmount entry.2) (outputAmounts tx) := by
  have all : (txOutputs txRules tx).map (fun output => output.2.value.toInt) =
      outputAmounts tx := by
    rw [txOutputs, List.map_map, outputAmounts, ← List.zipIdx_map_fst 0 tx.txOut,
      List.map_map, List.zipIdx_map_fst]
    rfl
  rw [← all, txTransfer, List.map_map]
  exact List.filter_sublist.map _

theorem NonNeg.apply (nonneg : NonNeg ledger)
    (amounts : ∀ amount ∈ outputAmounts tx, InMoneyRange amount) :
    NonNeg (ledger.apply (txTransfer txRules blockHeight tx)) := by
  intro outPoint coin held
  rcases Ledger.apply_eq_some held with before | created
  · exact nonneg outPoint coin before
  · have member := (created_amounts txRules tx blockHeight).subset (List.mem_map_of_mem created)
    exact (amounts _ member).1

theorem total_txTransfer_le (bounded : ledger.Bounded) (nonneg : NonNeg ledger)
    (inputs : (tx.txIn.map TxIn.previousOutPoint).Nodup) {txRules : TxRules}
    (amounts : ∀ amount ∈ outputAmounts tx, InMoneyRange amount) :
    (ledger.apply (txTransfer txRules blockHeight tx)).total coinAmount ≤
      ledger.total coinAmount - (inputAmounts ledger tx).sum + (outputAmounts tx).sum := by
  have sublist := created_amounts txRules tx blockHeight
  have createdNonneg : ∀ entry ∈ (txTransfer txRules blockHeight tx).created,
      0 ≤ coinAmount entry.2 := by
    intro entry member
    exact (amounts _ (sublist.subset (List.mem_map_of_mem member))).1
  have nodup : (txTransfer txRules blockHeight tx).spent.Nodup := by
    simp only [txTransfer]
    split
    · exact List.nodup_nil
    · exact inputs
  have applied := Ledger.total_apply_le bounded nodup nonneg createdNonneg
  have spent : ((txTransfer txRules blockHeight tx).spent.map fun key =>
      Ledger.worth coinAmount (ledger key)) = inputAmounts ledger tx := by
    simp only [txTransfer, inputAmounts]
    split
    · rfl
    · rw [List.map_map]
      rfl
  have created := sublist.sum_le_sum fun amount member => (amounts amount member).1
  rw [spent] at applied
  omega

theorem inputAmounts_congr {first second : Ledger OutPoint SpentTxOut}
    (agree : ∀ outPoint ∈ (txTransfer txRules blockHeight tx).spent,
      first outPoint = second outPoint) : inputAmounts first tx = inputAmounts second tx := by
  simp only [inputAmounts, txTransfer] at agree ⊢
  split
  · rfl
  · next notCoinBase =>
    rw [if_neg notCoinBase] at agree
    refine List.map_congr_left fun txIn member => ?_
    rw [agree _ (List.mem_map_of_mem member)]

/-- The coins that the view holds too early count for nothing where none of them is spent. -/
theorem total_of_checkConnectTransactions
    {transactions : List MsgTx} {entries : UtxoEntries} {ledger : Ledger OutPoint SpentTxOut}
    (sane : ∀ tx ∈ transactions, checkTransactionOutputs inference tx = .ok () ∧
      (tx.txIn.map TxIn.previousOutPoint).Nodup ∧ isCoinBaseTx tx = false)
    (inOrder : Ledger.InOrder (blockTransfers (rules.withInference inference).toTxRules
      node.height transactions))
    (agree : Ledger.AgreeOff (Ledger.createdKeys (blockTransfers
      (rules.withInference inference).toTxRules node.height transactions)) entries.unspent ledger)
    (checked : transactions.foldlM (checkConnectTransaction (rules.withInference inference) node)
      (entries, fees) = .ok (after, totalFees))
    (bounded : ledger.Bounded) (nonneg : NonNeg ledger) (feesNonneg : 0 ≤ fees.toInt) :
    after.unspent.total coinAmount + totalFees.toInt ≤
        ledger.total coinAmount + fees.toInt + (transactions.map issuedBy).sum ∧
      NonNeg after.unspent ∧ 0 ≤ totalFees.toInt := by
  induction transactions generalizing entries fees ledger with
  | nil =>
    cases checked
    obtain rfl : after.unspent = ledger := agree.applyAll_eq
    exact ⟨by simp, nonneg, feesNonneg⟩
  | cons tx rest ih =>
    obtain ⟨⟨outputs, inputs, notCoinBase⟩, others⟩ := List.forall_mem_cons.mp sane
    rw [List.foldlM_cons, bind_eq_ok] at checked
    obtain ⟨⟨middle, middleFees⟩, first, checked⟩ := checked
    obtain ⟨step, next, moved⟩ := exactStep_of_checkConnectTransaction outputs feesNonneg first
    have amounts := (outputs_of_checkTransactionOutputs outputs).2
    have total := @total_txTransfer_le tx node.height ledger bounded nonneg
      inputs (rules.withInference inference).toTxRules amounts
    have spent := inputAmounts_congr fun outPoint member =>
      agree outPoint (inOrder.1 outPoint member)
    have feeEq : (txAccount entries.unspent tx).fee =
        (inputAmounts ledger tx).sum + issuedBy tx - (outputAmounts tx).sum := by
      simp [txAccount, notCoinBase, spent]
    have agrees := agree.apply
    rw [← moved] at agrees
    obtain ⟨below, stays, feesStay⟩ := ih others inOrder.2 agrees checked
      (bounded.apply _) (nonneg.apply amounts)
      (by rw [next]; exact Int.add_nonneg feesNonneg step.account.fee.1)
    refine ⟨?_, stays, feesStay⟩
    rw [List.map_cons, List.sum_cons]
    omega

end Conservation

section Chain

variable {rules : ChainRules} {inference : InferenceRules} {parent node : BlockNode}
  {block : MsgBlock}

def subsidies (rules : ChainRules) : BlockNode → Int
  | .genesis _ => 0
  | .child parent block => subsidies rules parent +
      (rules.calcBlockSubsidy (BlockNode.child parent block).height).toInt

def issuance : BlockNode → Int
  | .genesis _ => 0
  | .child parent block => issuance parent + (block.transactions.map issuedBy).sum

/-- The 64-bit numbers of a block's check are those of the accounts. -/
structure ExactBlock (rules : ChainRules) (node : BlockNode) (view : UtxoViewpoint) : Prop where
  steps : ∀ before tx after, node.block.transactions = before ++ tx :: after → ∃ entries totalFees,
      before.foldlM (checkConnectTransaction rules node) (fetchInputUtxos rules.toTxRules
          view.entries node.block.transactions node.height, 0) = .ok (entries, totalFees) ∧
        ExactStep rules node entries totalFees tx
  reward : ∃ entries totalFees, node.block.transactions.foldlM
      (checkConnectTransaction rules node) (fetchInputUtxos rules.toTxRules view.entries
        node.block.transactions node.height, 0) = .ok (entries, totalFees) ∧
    0 ≤ totalFees.toInt ∧ (rules.calcBlockSubsidy node.height + totalFees).toInt =
      (rules.calcBlockSubsidy node.height).toInt + totalFees.toInt

theorem calcBlockSubsidy_range (targetTimePerBlock : Nat) (height : Int32) :
    0 ≤ (calcBlockSubsidy targetTimePerBlock height).toInt ∧
      (calcBlockSubsidy targetTimePerBlock height).toInt ≤ totalSupply := by
  rw [calcBlockSubsidy]
  split
  · exact ⟨by decide, by decide⟩
  · split
    · exact ⟨by decide, by decide⟩
    · simp only
      generalize 4 * 365 * 24 * 60 * 60 / targetTimePerBlock = emission
      have below : totalSupply * emission /
          ((height.toInt.toNat + inferencePhase2Offset + emission) *
            (height.toInt.toNat + inferencePhase2Offset - 1 + emission)) ≤ totalSupply := by
        have positive : 1 ≤ height.toInt.toNat + inferencePhase2Offset - 1 + emission := by
          rw [inferencePhase2Offset]
          omega
        apply Nat.div_le_of_le_mul
        rw [Nat.mul_comm totalSupply]
        apply Nat.mul_le_mul_right
        calc emission
            ≤ (height.toInt.toNat + inferencePhase2Offset + emission) * 1 := by omega
          _ ≤ _ := Nat.mul_le_mul_left _ positive
      have small : totalSupply < 2 ^ 63 := by decide
      rw [Int64.toInt_ofNat_of_lt (by omega)]
      exact ⟨Int.natCast_nonneg _, Int.ofNat_le.mpr below⟩

theorem sane_outputs
    (sane : checkBlockSanity (rules.withInference inference) block adjustedTime flags = .ok ()) :
    ∀ tx ∈ block.transactions, checkTransactionOutputs inference tx = .ok () := by
  simp only [checkBlockSanity, checkTransactionSanity, bind_eq_ok, require_eq_ok,
    forM_eq_ok] at sane
  obtain ⟨_, _, _, _, _, _, _, _, _, _, _, _, _, _, _, transactions, _⟩ := sane
  intro tx member
  obtain ⟨_, outputs, _⟩ := transactions tx member
  exact outputs

theorem fees_nonneg {transactions : List MsgTx}
    (outputs : ∀ tx ∈ transactions, checkTransactionOutputs inference tx = .ok ())
    (nonneg : 0 ≤ fees.toInt)
    (checked : transactions.foldlM (checkConnectTransaction (rules.withInference inference) node)
      (entries, fees) = .ok (after, totalFees)) : 0 ≤ totalFees.toInt := by
  induction transactions generalizing entries fees with
  | nil =>
    cases checked
    exact nonneg
  | cons tx rest ih =>
    obtain ⟨head, tail⟩ := List.forall_mem_cons.mp outputs
    rw [List.foldlM_cons, bind_eq_ok] at checked
    obtain ⟨⟨middle, middleFees⟩, first, checked⟩ := checked
    obtain ⟨step, next, _⟩ := exactStep_of_checkConnectTransaction head nonneg first
    apply ih tail _ checked
    rw [next]
    exact Int.add_nonneg nonneg step.account.fee.1

theorem toInt_coinbase_outputs
    (checked : checkTransactionOutputs inference coinbase = .ok ()) :
    (coinbase.txOut.foldl (fun (total : Int64) (txOut : TxOut) =>
      total + txOut.value) 0).toInt = (outputAmounts coinbase).sum := by
  rw [← totalGrainOut_eq (outputs_of_checkTransactionOutputs checked).1, List.foldl_map]

theorem exactSteps_of_foldlM
    (outputs : ∀ tx ∈ transactions, checkTransactionOutputs inference tx = .ok ())
    (looped : transactions.foldlM
      (checkConnectTransaction (rules.withInference inference) node) (entries, 0) =
        .ok (after, totalFees)) :
    ∀ before tx rest, transactions = before ++ tx :: rest → ∃ entries' totalFees', before.foldlM
          (checkConnectTransaction (rules.withInference inference) node)
          (entries, 0) = .ok (entries', totalFees') ∧
        ExactStep (rules.withInference inference) node entries' totalFees' tx := by
  intro before tx rest split
  rw [split, List.foldlM_append, bind_eq_ok] at looped
  obtain ⟨⟨middle, middleFees⟩, first, looped⟩ := looped
  rw [List.foldlM_cons, bind_eq_ok] at looped
  obtain ⟨⟨next, nextFees⟩, here, _⟩ := looped
  have nonneg := fees_nonneg (fun tx member => outputs tx (split ▸ List.mem_append_left _ member))
    (show 0 ≤ (0 : Int64).toInt from Int.le_refl 0) first
  refine ⟨middle, middleFees, first, (exactStep_of_checkConnectTransaction
    (outputs tx ?_) nonneg here).1⟩
  rw [split]
  exact List.mem_append_right _ (.head _)

/-- The coinbase pays at most the subsidy and the fees, and neither their sum nor
anything before it wraps around. -/
theorem exactBlock_of_checkConnectBlock {view after : UtxoViewpoint}
    {coinbase : MsgTx} {others : List MsgTx}
    (transactions : node.block.transactions = coinbase :: others)
    (outputs : ∀ tx ∈ node.block.transactions, checkTransactionOutputs inference tx = .ok ())
    (checked : checkConnectBlock (rules.withInference inference) node view = .ok after) :
    ExactBlock (rules.withInference inference) node view ∧
      ∃ totalFees, node.block.transactions.foldlM
          (checkConnectTransaction (rules.withInference inference) node)
          (fetchInputUtxos (rules.withInference inference).toTxRules view.entries
            node.block.transactions node.height, 0) = .ok (after.entries, totalFees) ∧
        (outputAmounts coinbase).sum ≤
          ((rules.withInference inference).calcBlockSubsidy node.height).toInt +
            totalFees.toInt := by
  simp only [checkConnectBlock, bind_eq_ok, require_eq_ok, pure_eq_ok, gt_iff_lt,
    Int64.lt_iff_toInt_lt, not_lt] at checked
  obtain ⟨_, _, _, _, _, _, ⟨entries, totalFees⟩, looped, _, pays, _, _, _, _, rfl⟩ := checked
  have nonneg := fees_nonneg outputs (show 0 ≤ (0 : Int64).toInt from Int.le_refl 0) looped
  have coinbaseOutputs := outputs coinbase (transactions ▸ (.head _))
  have paysNonneg : 0 ≤ (outputAmounts coinbase).sum := by
    have whole := (outputs_of_checkTransactionOutputs coinbaseOutputs).1
      (outputAmounts coinbase).length
    rw [List.take_length] at whole
    exact whole.1
  rw [transactions] at pays
  simp only [List.head?_cons, Option.map_some, Option.getD_some] at pays
  rw [toInt_coinbase_outputs coinbaseOutputs] at pays
  obtain ⟨low, high⟩ :=
    calcBlockSubsidy_range inference.targetTimePerBlock node.height
  have supply : (totalSupply : Int) = 2100000000000000 := rfl
  -- a reward that wraps around is negative, and less than any payment
  have sum : ((rules.withInference inference).calcBlockSubsidy node.height + totalFees).toInt =
        ((rules.withInference inference).calcBlockSubsidy node.height).toInt + totalFees.toInt := by
    change (calcBlockSubsidy inference.targetTimePerBlock node.height +
      totalFees).toInt = (calcBlockSubsidy inference.targetTimePerBlock
        node.height).toInt + totalFees.toInt
    change _ ≤ (calcBlockSubsidy inference.targetTimePerBlock node.height + totalFees).toInt at pays
    have bound := totalFees.toInt_lt
    rw [Int64.toInt_add, Int.bmod_def] at pays ⊢
    split at pays <;> split <;> omega
  rw [sum] at pays
  exact ⟨⟨exactSteps_of_foldlM outputs looped, entries, totalFees, looped, nonneg, sum⟩,
    totalFees, looped, pays⟩

theorem total_child_le (accepted : AcceptedChain (rules.withInference inference)
      (.child parent block))
    (inOrder : Ledger.InOrder (transfersOf (rules.withInference inference) (.child parent block)))
    (bounded : (utxosOf (rules.withInference inference) parent).Bounded)
    (nonneg : NonNeg (utxosOf (rules.withInference inference) parent)) :
    (utxosOf (rules.withInference inference) (.child parent block)).total coinAmount ≤
        (utxosOf (rules.withInference inference) parent).total coinAmount +
        ((rules.withInference inference).calcBlockSubsidy
          (BlockNode.child parent block).height).toInt + (block.transactions.map issuedBy).sum ∧
      NonNeg (utxosOf (rules.withInference inference) (.child parent block)) := by
  obtain ⟨adjustedTime, flags, sane⟩ := accepted.sane
  obtain ⟨view, after, _, unspent, connected⟩ := accepted.passes
  have outputs := sane_outputs sane
  have saneTransactions := sane_of_checkBlockSanity sane
  obtain ⟨coinbase, others, transactions, isCoinBase, notCoinBase⟩ := saneTransactions.coinbaseFirst
  obtain ⟨applied, _⟩ := unspent_of_checkConnectBlock connected
  have final : after.entries.unspent =
      utxosOf (rules.withInference inference) (.child parent block) := by
    rw [applied, unspent]
    rfl
  obtain ⟨_, totalFees, looped, pays⟩ := @exactBlock_of_checkConnectBlock rules
    inference (.child parent block) view after coinbase others transactions outputs connected
  have agree := @agreeOff_fetchInputUtxos (rules.withInference inference).toTxRules view.entries
    (BlockNode.child parent block).height block.transactions
  change block.transactions.foldlM _ _ = _ at looped
  rw [transactions] at outputs saneTransactions
  rw [transfersOf, BlockNode.block, transactions] at inOrder
  rw [BlockNode.block] at looped
  generalize fetchInputUtxos _ _ _ _ = fetched at looped agree
  rw [transactions] at agree
  rw [transactions, List.foldlM_cons, bind_eq_ok] at looped
  obtain ⟨⟨middle, middleFees⟩, first, looped⟩ := looped
  obtain ⟨coinbaseOutputs, otherOutputs⟩ := List.forall_mem_cons.mp outputs
  obtain ⟨coinbaseInputs, otherInputs⟩ := List.forall_mem_cons.mp saneTransactions.inputs
  -- the coinbase spends nothing and leaves no fee
  obtain ⟨step, next, moved⟩ := exactStep_of_checkConnectTransaction coinbaseOutputs
    (show 0 ≤ (0 : Int64).toInt from Int.le_refl 0) first
  have amounts := (outputs_of_checkTransactionOutputs coinbaseOutputs).2
  rw [unspent] at agree
  have agrees := agree.apply
  rw [← moved] at agrees
  have minted := @total_txTransfer_le coinbase (BlockNode.child parent block).height _
    bounded nonneg coinbaseInputs (rules.withInference inference).toTxRules amounts
  have noFee : middleFees.toInt = 0 := by
    rw [next]
    simp [txAccount, isCoinBase]
  have noIssue : issuedBy coinbase = 0 := by
    obtain ⟨issued, _, issues, _⟩ := step.computed
    exact (issued_of_checkInferenceGoTx issues).2.2 isCoinBase
  have noInputs : inputAmounts (utxosOf (rules.withInference inference) parent) coinbase = [] := by
    rw [inputAmounts, if_pos isCoinBase]
  obtain ⟨below, stays, _⟩ := total_of_checkConnectTransactions
    (fun tx member => ⟨otherOutputs tx member, otherInputs tx member,
      notCoinBase tx member⟩) inOrder.2 agrees looped (bounded.apply _)
    (nonneg.apply amounts) (Int.le_of_eq noFee.symm)
  rw [final] at below stays
  refine ⟨?_, stays⟩
  rw [noInputs, List.sum_nil] at minted
  rw [transactions, List.map_cons, List.sum_cons]
  omega

theorem AcceptedChain.conserved (accepted : AcceptedChain (rules.withInference inference) node)
    (inOrder : ChainInOrder (rules.withInference inference) node) :
    (utxosOf (rules.withInference inference) node).Bounded ∧
      NonNeg (utxosOf (rules.withInference inference) node) ∧
      (utxosOf (rules.withInference inference) node).total coinAmount ≤
        subsidies (rules.withInference inference) node + issuance node := by
  induction node with
  | genesis block =>
    refine ⟨Ledger.bounded_empty, ?_, ?_⟩
    · intro outPoint coin held
      cases held
    · exact Int.le_of_eq Ledger.total_empty
  | child parent block ih =>
    obtain ⟨bounded, nonneg, total⟩ := ih accepted.below
      fun lower below member => inOrder lower below (.tail _ member)
    obtain ⟨below, stays⟩ := total_child_le accepted (inOrder parent block (.head _))
      bounded nonneg
    refine ⟨bounded.applyAll _, stays, ?_⟩
    rw [subsidies, issuance]
    omega

/-- No number wraps around, and no more is unspent than was paid out on a chain on which no
transaction spends an output of itself or of a later one of its block. -/
theorem money_conserved (accepted : AcceptedChain (rules.withInference inference) node) :
    (ChainInOrder (rules.withInference inference) node →
      (utxosOf (rules.withInference inference) node).total coinAmount ≤
        subsidies (rules.withInference inference) node + issuance node) ∧
    ∀ parent block, BlockNode.child parent block ∈ node.ancestors →
      ∀ view after, checkConnectBlock (rules.withInference inference)
          (.child parent block) view = .ok after →
        ExactBlock (rules.withInference inference) (.child parent block) view := by
  constructor
  · intro inOrder
    exact (accepted.conserved inOrder).2.2
  · intro parent block member view after connected
    obtain ⟨⟨_, _, sane⟩, _⟩ := accepted.blocks parent block member
    obtain ⟨coinbase, others, transactions, _⟩ := (sane_of_checkBlockSanity sane).coinbaseFirst
    exact (@exactBlock_of_checkConnectBlock rules inference (.child parent block) view
      after coinbase others transactions (sane_outputs sane) connected).1

end Chain

open SimNetBounties.SeparateNonces in
/-- Two bounties are posted and claimed. -/
theorem money_conserved_bounties :
    (utxosOf (chainRules.withInference inferenceRules) node).total coinAmount ≤ 750000000000 := by
  have inOrder : ∀ ancestor ∈ node.ancestors,
      Ledger.InOrder (transfersOf (chainRules.withInference inferenceRules) ancestor) := by
    decide +kernel
  have conserved := (money_conserved accepted).1 fun _ _ member => inOrder _ member
  have bound : subsidies (chainRules.withInference inferenceRules) node +
      issuance node = 750000000000 := by
    decide
  exact conserved.trans (Int.le_of_eq bound)

theorem total_utxosOf (rules : ChainRules) (node : BlockNode) (value : SpentTxOut → Int) :
    (utxosOf rules node).total value = (((chainTransactions rules node).flatMap fun entry =>
      (txTransfer rules.toTxRules entry.1.height entry.2.2).created.map Prod.fst).toFinset).sum
        fun outPoint => Ledger.worth value (utxosOf rules node outPoint) := by
  refine Ledger.total_eq_sum fun outPoint held => ?_
  obtain ⟨coin, held⟩ := Option.ne_none_iff_exists'.mp held
  obtain ⟨entry, listed, created⟩ := created_of_utxosOf held
  exact List.mem_toFinset.mpr (List.mem_flatMap.mpr ⟨entry, listed, List.mem_map_of_mem created⟩)

namespace ForwardSpend

def inference : InferenceRules :=
  SimNetBounties.inference [] (.listed [] (by decide))

def network : ChainRules :=
  rules.withInference inference

end ForwardSpend

open ForwardSpend in
/-- The output that is spent before it is created is created all the same, and spent again. -/
theorem money_created_by_forward_spend :
    AcceptedChain network forwardNode ∧
    subsidies network forwardNode + issuance forwardNode = 500000000000 ∧
    (utxosOf network forwardNode).total coinAmount = 750000000000 := by
  refine ⟨@AcceptedChain.of_connectChain _ _ 1776675700 (by decide +kernel), by decide +kernel, ?_⟩
  rw [total_utxosOf]
  decide +kernel

end ModelOS.BlockChain
