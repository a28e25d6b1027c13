import ModelOS.Wallet.InferenceRequest

namespace ModelOS.Wallet

open Data Wire BlockChain TxScript

/-- Keys, redeem scripts and signatures with the default hash type, which are 64 bytes. -/
structure SecretsSource where
  Key : Type
  getKey : Bytes → Except String Key
  getScript : Bytes → Except String Bytes
  sign : Key → MsgTx → Nat → Except String (FixedBytes 64)

def spendTaprootKey (secrets : SecretsSource) (tx : MsgTx) (pkScript : Bytes) (idx : Nat) :
    Except String TxWitness := do
  let privKey ← secrets.getKey pkScript
  let sig ← secrets.sign privKey tx idx
  return [sig.bytes]

/-- The control block of a tree with one leaf is the version of the leaf, with the parity
bit. -/
def spendMerkleRoot (secrets : SecretsSource) (tx : MsgTx) (pkScript : Bytes) (idx : Nat) :
    Except String TxWitness := do
  let privKey ← describe ("P2MR spend: unable to get signing key: " ++ ·)
    (secrets.getKey pkScript)
  let redeemScript ← describe ("P2MR spend: unable to get redeem script: " ++ ·)
    (secrets.getScript pkScript)
  let sig ← secrets.sign privKey tx idx
  return [sig.bytes, redeemScript, [0xc1]]

def inputWitness (secrets : SecretsSource) (tx : MsgTx) (input : Bytes × Nat) :
    Except String TxWitness :=
  if isPayToTaproot input.1 then spendTaprootKey secrets tx input.1 input.2
  else if isPayToMerkleRoot input.1 then spendMerkleRoot secrets tx input.1 input.2
  else .error ("input " ++ toString input.2 ++ ": unsupported script type")

def addAllInputScripts (secrets : SecretsSource) (authored : AuthoredTx) : Except String MsgTx := do
  require (authored.tx.txIn.length = authored.prevScripts.length)
    "tx.TxIn and prevPkScripts slices must have equal length"
  let witnesses ← authored.prevScripts.zipIdx.mapM (inputWitness secrets authored.tx)
  return { authored.tx with
    txIn := (authored.tx.txIn.zip witnesses).map fun (txIn, witness) =>
      { txIn with witness } }

section Size

variable {outputs : List TxOut} {coins : List Coin} {fee : Int64} {changeScript : Bytes}
  {secrets : SecretsSource} {signed : MsgTx}

theorem varIntSerializeSize_mono (le : small ≤ large) :
    varIntSerializeSize small ≤ varIntSerializeSize large := by
  simp only [varIntSerializeSize, UInt64.lt_iff_toNat_lt, UInt64.le_iff_toNat_le] at le ⊢
  split_ifs <;> omega

theorem signed_inputs
    (done : addAllInputScripts secrets (withChange outputs coins fee changeScript) = .ok signed) :
    signed.txIn.length = coins.length ∧
      signed.txOut = (withChange outputs coins fee changeScript).tx.txOut ∧
      (signed.txIn.map TxIn.serializeSize).sum = coins.length * redeemP2TRInputSize ∧
      ∀ txIn ∈ signed.txIn, ∃ coin ∈ coins, ∃ idx,
        inputWitness secrets (withChange outputs coins fee changeScript).tx
          (coin.txOut.pkScript, idx) = .ok txIn.witness := by
  simp only [addAllInputScripts, bind_eq_ok, require_eq_ok, pure_eq_ok] at done
  obtain ⟨_, _, witnesses, made, rfl⟩ := done
  obtain ⟨length, shapes⟩ := mapM_eq_ok made
  have count : witnesses.length = coins.length := by simp [length, withChange]
  have inputs : ∀ txIn ∈ ((withChange outputs coins fee changeScript).tx.txIn.zip
      witnesses).map (fun (txIn, witness) => { txIn with witness }),
      txIn.serializeSize = redeemP2TRInputSize ∧ txIn.witness ∈ witnesses := by
    intro txIn member
    obtain ⟨⟨bare, witness⟩, zipped, rfl⟩ := List.mem_map.mp member
    obtain ⟨spent, signature⟩ := List.of_mem_zip zipped
    obtain ⟨coin, _, rfl⟩ := List.mem_map.mp spent
    exact ⟨rfl, signature⟩
  refine ⟨by simp [count, withChange], rfl, ?_, ?_⟩
  · rw [List.sum_eq_card_nsmul _ redeemP2TRInputSize (by
      simpa only [List.forall_mem_map] using fun txIn member => (inputs txIn member).1)]
    simp [count, withChange]
  · intro txIn member
    obtain ⟨⟨pkScript, idx⟩, listed, isWitness⟩ := shapes _ (inputs txIn member).2
    obtain ⟨coin, owned, rfl⟩ := List.mem_map.mp (List.fst_mem_of_mem_zipIdx listed)
    exact ⟨coin, owned, idx, isWitness⟩

theorem inputWitness_taproot
    (taproot : isPayToTaproot pkScript)
    (made : inputWitness secrets tx (pkScript, idx) = .ok witness) :
    witnessSerializeSize witness = 66 := by
  simp only [inputWitness, taproot, if_true, spendTaprootKey, bind_eq_ok, pure_eq_ok] at made
  obtain ⟨_, _, sig, _, rfl⟩ := made
  rw [witnessSerializeSize, List.map_singleton, List.sum_singleton, sig.length_eq]
  rfl

theorem inputWitness_merkleRoot (merkleRoot : isPayToMerkleRoot pkScript)
    (leaf : ∀ script, secrets.getScript pkScript = .ok script → 2 ≤ script.length)
    (made : inputWitness secrets tx (pkScript, idx) = .ok witness) :
    71 ≤ witnessSerializeSize witness := by
  have version : ¬ isPayToTaproot pkScript := by
    simp only [isPayToTaproot, isPayToMerkleRoot, witnessProgramOf, decide_eq_true_eq] at *
    rintro ⟨-, first, -⟩
    rw [merkleRoot.2.1] at first
    cases first
  rw [inputWitness, if_neg version, if_pos merkleRoot] at made
  simp only [spendMerkleRoot, bind_eq_ok, describe_eq_ok, pure_eq_ok] at made
  obtain ⟨_, _, script, isScript, sig, _, rfl⟩ := made
  have long := leaf script isScript
  have count := varIntSerializeSize_pos (UInt64.ofNat script.length)
  have signature : varIntSerializeSize (UInt64.ofNat sig.bytes.length) + sig.bytes.length = 65 := by
    rw [sig.length_eq]
    rfl
  simp only [witnessSerializeSize, List.map_cons, List.map_nil, List.sum_cons, List.sum_nil,
    signature, List.length_cons, List.length_nil]
  have counts : varIntSerializeSize (UInt64.ofNat (0 + 1 + 1 + 1)) = 1 ∧
      varIntSerializeSize (UInt64.ofNat (0 + 1)) = 1 := by decide
  omega

/-- A source whose scripts have the size that it announces. -/
structure ChangeSource.Sized (changeSource : ChangeSource) : Prop where
  positive : 0 < changeSource.scriptSize
  exactly : ∀ script, changeSource.newScript = .ok script → script.length = changeSource.scriptSize

theorem vsize_le_estimate (positive : 0 < scriptSize)
    (sized : changeScript.length = scriptSize) (few : outputs.length < 2 ^ 63)
    (taproot : ∀ coin ∈ coins, isPayToTaproot coin.txOut.pkScript)
    (done : addAllInputScripts secrets (withChange outputs coins fee changeScript) = .ok signed) :
    getTransactionVsize signed ≤ estimateVirtualSize coins.length outputs scriptSize := by
  obtain ⟨length, txOut, bases, shapes⟩ := signed_inputs done
  have witnesses := List.sum_eq_card_nsmul
    (signed.txIn.map fun txIn => witnessSerializeSize txIn.witness) 66 (by
      rw [List.forall_mem_map]
      intro txIn member
      obtain ⟨coin, owned, idx, made⟩ := shapes txIn member
      exact inputWitness_taproot (taproot coin owned) made)
  rw [List.length_map, length, smul_eq_mul] at witnesses
  -- the change is counted whether or not it is there
  have outs : varIntSerializeSize (UInt64.ofNat signed.txOut.length) +
      (signed.txOut.map TxOut.serializeSize).sum ≤
      varIntSerializeSize (UInt64.ofNat (outputs.length + 1)) +
        (outputs.map TxOut.serializeSize).sum +
        (8 + varIntSerializeSize (UInt64.ofNat scriptSize) + scriptSize) := by
    rw [txOut]
    rcases @txOut_withChange outputs coins fee changeScript with
      ⟨change, listed, -, rfl, -⟩ | ⟨listed, -⟩
    · rw [listed, List.length_append, List.map_append, List.sum_append, ← sized]
      simp only [List.length_singleton, List.map_singleton, List.sum_singleton, TxOut.serializeSize]
      omega
    · have counts : varIntSerializeSize (UInt64.ofNat outputs.length) ≤
          varIntSerializeSize (UInt64.ofNat (outputs.length + 1)) := by
        apply varIntSerializeSize_mono
        rw [UInt64.le_iff_toNat_le, UInt64.toNat_ofNat_of_lt' (by simp [UInt64.size]; omega),
          UInt64.toNat_ofNat_of_lt' (by simp [UInt64.size]; omega)]
        omega
      rw [listed]
      omega
  simp only [getTransactionVsize, estimateVirtualSize, calcVsize, witnessScaleFactor,
    MsgTx.serializeSizeStripped, MsgTx.serializeSize, MsgTx.baseSize, if_pos positive, length,
    bases, witnesses, redeemP2TRInputWitnessWeight]
  by_cases none : coins.length = 0
  · have unsigned : signed.hasWitness = false := by
      rw [MsgTx.hasWitness, List.length_eq_zero_iff.mp (length.trans none), List.any_nil]
    rw [unsigned, if_neg (by decide), if_neg (by omega)]
    omega
  · rw [if_pos (Nat.pos_of_ne_zero none)]
    split_ifs <;> omega

/-- With the change kept nothing makes up for the scripts that the estimate leaves out. -/
theorem estimate_lt_vsize (positive : 0 < scriptSize)
    (sized : changeScript.length = scriptSize) (spends : coins ≠ [])
    (kept : (withChange outputs coins fee changeScript).changeIndex ≠ none)
    (merkleRoot : ∀ coin ∈ coins, isPayToMerkleRoot coin.txOut.pkScript ∧
      ∀ script, secrets.getScript coin.txOut.pkScript = .ok script → 2 ≤ script.length)
    (done : addAllInputScripts secrets (withChange outputs coins fee changeScript) = .ok signed) :
    estimateVirtualSize coins.length outputs scriptSize < getTransactionVsize signed := by
  obtain ⟨length, txOut, bases, shapes⟩ := signed_inputs done
  have sizes : ∀ txIn ∈ signed.txIn, 71 ≤ witnessSerializeSize txIn.witness := by
    intro txIn member
    obtain ⟨coin, owned, idx, made⟩ := shapes txIn member
    exact inputWitness_merkleRoot (merkleRoot coin owned).1 (merkleRoot coin owned).2 made
  have witnesses := List.card_nsmul_le_sum
    (signed.txIn.map fun txIn => witnessSerializeSize txIn.witness) 71 (by
      simpa only [List.forall_mem_map] using sizes)
  rw [List.length_map, length, smul_eq_mul] at witnesses
  obtain ⟨some, unsigned⟩ : 0 < coins.length ∧ signed.hasWitness := by
    have some := List.length_pos_iff.mpr spends
    refine ⟨some, ?_⟩
    obtain ⟨txIn, member⟩ := List.exists_mem_of_length_pos (length ▸ some)
    rw [MsgTx.hasWitness, List.any_eq_true]
    refine ⟨txIn, member, ?_⟩
    rw [decide_eq_true_eq, ne_eq, List.length_eq_zero_iff]
    intro empty
    have size := sizes txIn member
    rw [empty] at size
    exact absurd size (by decide)
  rcases @txOut_withChange outputs coins fee changeScript with
    ⟨change, listed, -, rfl, -⟩ | ⟨-, index⟩
  · have count : varIntSerializeSize (UInt64.ofNat coins.length) = 1 ∨
        4 ≤ coins.length ∧ varIntSerializeSize (UInt64.ofNat coins.length) ≤ 9 := by
      rw [varIntSerializeSize]
      split_ifs with single
      · exact .inl rfl
      all_goals
        refine .inr ⟨?_, by omega⟩
        by_contra few
        apply single
        rw [UInt64.lt_iff_toNat_lt, UInt64.toNat_ofNat_of_lt' (by simp [UInt64.size]; omega)]
        exact lt_of_not_ge (fun many => few (le_trans (by decide) many))
    simp only [getTransactionVsize, estimateVirtualSize, calcVsize, witnessScaleFactor,
      MsgTx.serializeSizeStripped, MsgTx.serializeSize, MsgTx.baseSize, if_pos positive,
      length, bases, unsigned, if_true, if_pos some, redeemP2TRInputWitnessWeight, txOut,
      listed, List.length_append, List.map_append, List.sum_append, List.length_singleton,
      List.map_singleton, List.sum_singleton, TxOut.serializeSize, sized]
    rcases (by omega : coins.length = 1 ∨ 2 ≤ coins.length) with one | more <;> omega
  · exact absurd index kept

end Size

section Fee

variable {rate : Int64} {size small large : Nat}

theorem toInt_feeForSerializeSize (fits : |rate.toInt * size| < 2 ^ 63) (int : size < 2 ^ 63) :
    (feeForSerializeSize rate size).toInt =
      if rate.toInt * size ≤ -1000 then maxGrain.toInt
      else if rate.toInt * size < 1000 then min (max rate.toInt 0) maxGrain.toInt
      else min (rate.toInt * size / 1000) maxGrain.toInt := by
  obtain ⟨low, high⟩ := abs_lt.mp fits
  have word : (Int64.ofNat size).toInt = size := Int64.toInt_ofNat_of_lt int
  have product := @toInt_mul_of_fits rate _ _ _ rfl word (by omega) (by omega)
  have quotient : (rate * Int64.ofNat size / 1000).toInt = (rate.toInt * size).tdiv 1000 :=
    toInt_div_of_fits product rfl (by omega)
  have small := toInt_maxGrain
  simp only [feeForSerializeSize]
  generalize rate * Int64.ofNat size / 1000 = fee at quotient ⊢
  generalize rate.toInt * size = required at *
  rcases le_or_gt 0 required with nonneg | negative
  · rw [Int.tdiv_eq_ediv_of_nonneg nonneg] at quotient
    simp only [gt_iff_lt, Int64.lt_iff_toInt_lt, ← Int64.toInt_inj, Int64.toInt_zero]
    split_ifs <;> omega
  · have mirrored : fee.toInt = -(-required / 1000) := by
      rw [quotient, ← Int.tdiv_eq_ediv_of_nonneg (by omega), Int.neg_tdiv, neg_neg]
    simp only [gt_iff_lt, Int64.lt_iff_toInt_lt, ← Int64.toInt_inj, Int64.toInt_zero]
    split_ifs <;> omega

/-- The minimum, which is the rate itself, does not make the smaller size the dearer one. -/
def Steady (rate : Int64) (small large : Nat) : Prop :=
  rate.toInt ≤ 0 ∨ 1000 ≤ rate.toInt * small ∨ rate.toInt * large < 1000 ∨ 1000 ≤ large

theorem feeForSerializeSize_le_iff (positive : 0 < small) (le : small ≤ large)
    (fits : |rate.toInt * large| < 2 ^ 63) (int : large < 2 ^ 63) :
    (feeForSerializeSize rate small).toInt ≤ (feeForSerializeSize rate large).toInt ↔
      Steady rate small large := by
  have smaller : |rate.toInt * small| ≤ |rate.toInt * large| := by
    rw [abs_mul, abs_mul, Nat.abs_cast, Nat.abs_cast]
    exact mul_le_mul_of_nonneg_left (by exact_mod_cast le) (abs_nonneg _)
  rw [toInt_feeForSerializeSize (smaller.trans_lt fits) (by omega),
    toInt_feeForSerializeSize fits int, Steady]
  have grain := toInt_maxGrain
  rcases le_or_gt rate.toInt 0 with credit | charge
  · have products : rate.toInt * large ≤ rate.toInt * small :=
      mul_le_mul_of_nonpos_left (by exact_mod_cast le) credit
    have negative : rate.toInt * small ≤ 0 :=
      mul_nonpos_of_nonpos_of_nonneg credit (Int.natCast_nonneg _)
    split_ifs <;> omega
  · have products : rate.toInt * small ≤ rate.toInt * large :=
      mul_le_mul_of_nonneg_left (by exact_mod_cast le) charge.le
    have first : rate.toInt * 1 ≤ rate.toInt * small :=
      mul_le_mul_of_nonneg_left (by exact_mod_cast positive) charge.le
    have whole : 1000 ≤ large ↔ rate.toInt * 1000 ≤ rate.toInt * large := by
      rw [mul_le_mul_iff_right₀ charge]
      norm_cast
    split_ifs <;> omega

theorem feeForSerializeSize_lt (relayed : 1000 ≤ rate.toInt) (positive : 0 < small)
    (lt : small < large) (fits : rate.toInt * large < 2 ^ 63)
    (below : (feeForSerializeSize rate small).toInt < maxGrain.toInt) :
    (feeForSerializeSize rate small).toInt < (feeForSerializeSize rate large).toInt := by
  have products : rate.toInt * (small + 1) ≤ rate.toInt * large :=
    Int.mul_le_mul_of_nonneg_left (by exact_mod_cast lt) (by omega)
  have first : 1000 * (small : Int) ≤ rate.toInt * small :=
    Int.mul_le_mul_of_nonneg_right relayed (by omega)
  have second : 1000 * (large : Int) ≤ rate.toInt * large :=
    Int.mul_le_mul_of_nonneg_right relayed (by omega)
  rw [Int.mul_add, Int.mul_one] at products
  rw [toInt_feeForSerializeSize (by rw [abs_lt]; omega) (by omega)] at below ⊢
  rw [toInt_feeForSerializeSize (by rw [abs_lt]; omega) (by omega)]
  split_ifs at * <;> omega

end Fee

section Rounds

variable {outputs : List TxOut} {rate : Int64} {changeSource : ChangeSource}

/-- A round that is not the last has selected coins up to its target and found that the
fee they need is not covered. -/
theorem authorRounds_running
    (running : authorRounds outputs rate changeSource (rounds + 1) targetFee source =
      .error .running) :
    ∃ next, next = fetchInputs (sumOutputValues outputs + targetFee) source.current
        source.eligible ∧ ¬ currentTotal next.current < sumOutputValues outputs + targetFee ∧
      currentTotal next.current - sumOutputValues outputs <
        maxRequiredFee outputs rate changeSource next.current ∧
      authorRounds outputs rate changeSource rounds
        (maxRequiredFee outputs rate changeSource next.current) next = .error .running := by
  refine ⟨_, rfl, ?_⟩
  simp only [authorRounds] at running
  generalize fetchInputs _ _ _ = next at running ⊢
  by_cases reached : ¬ currentTotal next.current < sumOutputValues outputs + targetFee
  · rw [require_pos reached] at running
    by_cases supported : ∀ coin ∈ next.current, isPayToTaproot coin.txOut.pkScript ∨
        isPayToMerkleRoot coin.txOut.pkScript
    · rw [require_pos supported] at running
      change (if _ then _ else _) = _ at running
      split at running
      · next short => exact ⟨reached, short, running⟩
      · cases script : changeSource.newScript <;> simp [script, describe, bind, Except.bind,
          pure, Except.pure] at running
    · rw [require, if_neg supported] at running
      cases running
  · rw [require, if_neg reached] at running
    cases running

theorem short_of_uncovered (outputsRange : InRange outputs)
    (coinsRange : InRange (coins.map Coin.txOut))
    (uncovered : currentTotal coins - sumOutputValues outputs <
      maxRequiredFee outputs rate changeSource coins) :
    currentTotal coins < sumOutputValues outputs +
      maxRequiredFee outputs rate changeSource coins := by
  obtain ⟨totalLow, totalHigh⟩ := currentTotal_inMoneyRange coinsRange
  obtain ⟨feeLow, feeHigh⟩ : InMoneyRange (maxRequiredFee outputs rate changeSource
    coins).toInt := feeForSerializeSize_inMoneyRange _ _
  obtain ⟨sumLow, sumHigh⟩ := outputsRange.sum_inMoneyRange
  rw [← outputsRange.toInt_sumOutputValues] at sumLow sumHigh
  have small := toInt_maxGrain
  rw [Int64.lt_iff_toInt_lt, toInt_sub_of_fits rfl rfl (by omega) (by omega)]
    at uncovered
  rw [Int64.lt_iff_toInt_lt, toInt_add_of_fits rfl rfl (by omega) (by omega)]
  omega

/-- Once the coins in hand fall short, every round takes at least one more. -/
theorem authorRounds_ends (outputsRange : InRange outputs)
    (coinsRange : InRange ((source.current ++ source.eligible).map Coin.txOut))
    (short : currentTotal source.current < sumOutputValues outputs + targetFee)
    (enough : source.eligible.length < rounds) :
    authorRounds outputs rate changeSource rounds targetFee source ≠ .error .running := by
  induction rounds generalizing targetFee source with
  | zero => omega
  | succ rounds ih =>
    intro running
    obtain ⟨next, isNext, reached, uncovered, later⟩ := authorRounds_running running
    have total := fetchInputs_append (sumOutputValues outputs + targetFee) source.current
      source.eligible
    have kept := prefix_fetchInputs (sumOutputValues outputs + targetFee) source.current
      source.eligible
    rw [← isNext] at total kept
    rw [← total] at coinsRange
    refine ih coinsRange ?_ ?_ later
    · exact short_of_uncovered outputsRange (coinsRange.sublist
        ((List.sublist_append_left _ _).map _)) uncovered
    · by_contra stays
      have lengths := congrArg List.length total
      rw [List.length_append, List.length_append] at lengths
      rw [← kept.eq_of_length_le (by omega)] at reached
      exact reached short

/-- The first round may find its target met by coins that were there before. -/
theorem newUnsignedTransaction_ends (outputsRange : InRange outputs)
    (coinsRange : InRange ((source.current ++ source.eligible).map Coin.txOut))
    (enough : source.eligible.length + 1 < rounds) :
    newUnsignedTransaction outputs rate rounds source changeSource ≠ .error .running := by
  obtain ⟨rounds, rfl⟩ : ∃ fewer, rounds = fewer + 1 := ⟨rounds - 1, by omega⟩
  intro running
  obtain ⟨next, isNext, -, uncovered, later⟩ := authorRounds_running running
  have total := isNext ▸ fetchInputs_append _ source.current source.eligible
  have kept := isNext ▸ prefix_fetchInputs _ source.current source.eligible
  have lengths := congrArg List.length total
  rw [List.length_append, List.length_append] at lengths
  rw [← total] at coinsRange
  refine authorRounds_ends outputsRange coinsRange (short_of_uncovered outputsRange
    (coinsRange.sublist ((List.sublist_append_left _ _).map _)) uncovered) ?_ later
  have grows := kept.length_le
  omega

end Rounds

section Pays

variable {outputs : List TxOut} {rate : Int64} {changeSource : ChangeSource}
  {source : InputSource} {coins : List Coin} {changeScript : Bytes}

/-- What the inputs hold beyond the outputs. -/
def AuthoredTx.fee (authored : AuthoredTx) : Int :=
  (authored.prevInputValues.map Int64.toInt).sum -
    (authored.tx.txOut.map fun txOut => txOut.value.toInt).sum

/-- The inputs cover the outputs, the change and the estimated fee to the grain; what would
be dust is left to the fee. -/
structure PaysExactly (outputs : List TxOut) (rate : Int64) (changeSource : ChangeSource)
    (coins : List Coin) (authored : AuthoredTx) : Prop where
  inputs : authored.tx.txIn = coins.map Coin.input
  total : authored.totalInput.toInt = (authored.prevInputValues.map Int64.toInt).sum
  change : (∃ change, authored.tx.txOut = outputs ++ [change] ∧
      authored.changeIndex = some outputs.length ∧ 0 < change.value.toInt ∧
      isDustOutput change defaultRelayFeePerKb = false ∧
      authored.fee = (maxRequiredFee outputs rate changeSource coins).toInt) ∨
    authored.tx.txOut = outputs ∧ authored.changeIndex = none ∧
      (maxRequiredFee outputs rate changeSource coins).toInt ≤ authored.fee

theorem Authored.paysExactly
    (authored : Authored outputs rate changeSource source coins changeScript)
    (outputsRange : InRange outputs) (coinsRange : InRange (coins.map Coin.txOut)) :
    PaysExactly outputs rate changeSource coins
      (withChange outputs coins (maxRequiredFee outputs rate changeSource coins) changeScript) := by
  have sum := outputsRange.toInt_sumOutputValues
  obtain ⟨-, ⟨low, -⟩, balance⟩ := authored.amounts coinsRange
    (sum ▸ outputsRange.sum_inMoneyRange.1)
  have total : (currentTotal coins).toInt = ((withChange outputs coins (maxRequiredFee outputs
      rate changeSource coins) changeScript).prevInputValues.map Int64.toInt).sum := by
    rw [currentTotal, coinsRange.toInt_sumOutputValues, withChange, List.map_map, List.map_map]
    rfl
  refine ⟨rfl, total, ?_⟩
  rw [AuthoredTx.fee, ← total]
  rcases txOut_withChange coins (maxRequiredFee outputs rate changeSource coins) changeScript
    with ⟨change, listed, index, rfl, nonzero, dust⟩ | ⟨listed, index⟩
  · refine .inl ⟨_, listed, index, ?_, dust, ?_⟩
    · rw [ne_eq, ← Int64.toInt_inj, Int64.toInt_zero] at nonzero
      exact lt_of_le_of_ne low (Ne.symm nonzero)
    · rw [listed, List.map_append, List.sum_append, ← sum, List.map_singleton, List.sum_singleton]
      dsimp only
      omega
  · refine .inr ⟨listed, index, ?_⟩
    rw [listed, ← sum]
    omega

theorem length_le_estimate (count : Nat) (scriptSize : Nat) :
    outputs.length < estimateVirtualSize count outputs scriptSize := by
  have counted := @length_le_sum _ outputs TxOut.serializeSize (fun txOut _ => by
    rw [TxOut.serializeSize]
    omega)
  simp only [estimateVirtualSize, calcVsize, witnessScaleFactor]
  omega

end Pays

namespace FeeExample

open RequestExample

def changeSource : ChangeSource :=
  ⟨.ok walletScript, p2TRPkScriptSize⟩

theorem changeSource_sized : changeSource.Sized :=
  ⟨by decide, fun script isScript => by
    cases isScript
    decide⟩

def leafScript : Bytes :=
  [0x20] ++ walletScript.drop 2 ++ [0xac]

/-- A wallet with one key, whose script is the leaf of its merkle root. -/
def secrets (signature : FixedBytes 64) : SecretsSource where
  Key := Unit
  getKey _ := .ok ()
  getScript _ := .ok leafScript
  sign _ _ _ := .ok signature

def keySignature : FixedBytes 64 := .ofNat 64
  0x1b3819d0634131403e505faa1e1cdb813f21da25ebb22f74044d928852468220aeddbd1dd186fba2b381a6fe53b6903932c9c09138928410730f67bdf46a12d3

def leafSignature : FixedBytes 64 := .ofNat 64
  0x86583bd0699db4654a3fc142ee988849c34dbaa57f5c287c0eee37bca7a6d3e45e36568ef5244bfbe260cd356a83bdb31042d76ac66347e334a5d4dc86df14a2

def leafCoin : Coin :=
  { coin with txOut.pkScript := [0x52, 0x20] ++ (FixedBytes.ofNat 32
      0x196ed1c843c4a0124f49a14f0693a476863f1c53d37b5d027b82ae7de57f6997).bytes }

def authored (coin : Coin) : AuthoredTx where
  tx := ⟨1, [coin.input], [feeOut, ⟨501845, walletScript⟩], 0⟩
  prevScripts := [coin.txOut.pkScript]
  prevInputValues := [1502000]
  totalInput := 1502000
  changeIndex := some 1

def signedTx (witness : TxWitness) : MsgTx :=
  { (authored coin).tx with txIn := [{ coin.input with witness }] }

end FeeExample

end ModelOS.Wallet
