import ModelOS.Wallet.TxAuthor

namespace ModelOS.Wallet

open Data Wire BlockChain TxScript
open ModelOS.ZkPow (hashString)

/-! `txToOutputs`, and the two calls that author an inference request and spend its
fee output. -/

/-- A generator that draws below its argument. -/
structure Random where
  int31n : Nat → Nat
  int31n_lt : ∀ count, 0 < count → int31n count < count

def swapOutputs (outputs : List TxOut) (first second : Nat) : List TxOut :=
  match outputs[first]?, outputs[second]? with
  | some atFirst, some atSecond => (outputs.set first atSecond).set second atFirst
  | _, _ => outputs

namespace AuthoredTx

def setVersion (authored : AuthoredTx) (version : Int32) : AuthoredTx :=
  if version ≠ 0 then { authored with tx := { authored.tx with version := version } }
  else authored

def randomizeChangePosition (random : Random) (authored : AuthoredTx) : AuthoredTx :=
  match authored.changeIndex with
  | none => authored
  | some index =>
    let r := random.int31n authored.tx.txOut.length
    { authored with
      tx := { authored.tx with txOut := swapOutputs authored.tx.txOut r index }
      changeIndex := some r }

def setWitnesses (authored : AuthoredTx) (witness : Nat → TxWitness) : AuthoredTx :=
  { authored with
    tx := { authored.tx with
      txIn := authored.tx.txIn.mapIdx fun i txIn => { txIn with witness := witness i } } }

end AuthoredTx

structure TxContext where
  requireChainClient : Except String Unit
  changeSource : Except String ChangeSource
  findEligibleOutputs : Except String (List Coin)
  arrangeCoins : List Coin → Int64 → Except String (List Coin)
  random : Random
  isWatchOnlyAccount : Except String Bool
  addAllInputScripts : AuthoredTx → Except String (Nat → TxWitness)
  validateMsgTx : AuthoredTx → Except String Unit
  notifyReceived : Bytes → Except String Unit

section TxToOutputs

variable (context : TxContext)

/-- Selected outputs are spent all, and in their order; of two eligible coins of
one outpoint the later one is in the map. -/
def inputSource (eligible : List Coin) (selectedUtxos : List OutPoint)
    (feeSatPerKb : Int64) : Except String InputSource := do
  if selectedUtxos = [] then
    return makeInputSource (← context.arrangeCoins eligible feeSatPerKb)
  else
    require selectedUtxos.Nodup "selected UTXOs contain duplicate values"
    let selected ← selectedUtxos.mapM fun outPoint =>
      present (eligible.reverse.find? fun coin => coin.outPoint = outPoint)
        ("selected outpoint not eligible for spending: " ++ outPointString outPoint)
    return constantInputSource selected

def signInputs (authored : AuthoredTx) : Except String AuthoredTx := do
  if ← context.isWatchOnlyAccount then return authored
  else
    let witness ← context.addAllInputScripts authored
    let signed := authored.setWitnesses witness
    context.validateMsgTx signed
    return signed

def notifyChange (authored : AuthoredTx) : Except String Unit :=
  match authored.changeIndex.bind fun index => authored.tx.txOut[index]? with
  | none => .ok ()
  | some change => context.notifyReceived change.pkScript

def unsignedTx (rounds : Nat) (outputs : List TxOut) (feeSatPerKb : Int64)
    (selectedUtxos : List OutPoint) : Except AuthorStop AuthoredTx := do
  describe .error context.requireChainClient
  let changeSource ← describe .error context.changeSource
  let eligible ← describe .error context.findEligibleOutputs
  let source ← describe .error (inputSource context eligible selectedUtxos feeSatPerKb)
  newUnsignedTransaction outputs feeSatPerKb rounds source changeSource

def txToOutputs (rounds : Nat) (outputs : List TxOut) (feeSatPerKb : Int64)
    (selectedUtxos : List OutPoint) (dryRun : Bool) (txVersion : Int32) :
    Except AuthorStop AuthoredTx := do
  let unsigned ← unsignedTx context rounds outputs feeSatPerKb selectedUtxos
  let authored := (unsigned.setVersion txVersion).randomizeChangePosition context.random
  if dryRun then return authored
  else
    let signed ← describe .error (signInputs context authored)
    describe .error (notifyChange context signed)
    return signed

end TxToOutputs

def serialiseInferencePayload (payload : InferencePayload) : Bytes :=
  [inferencePayloadVersion] ++ payload.promptHash.bytes ++ payload.resultAddress.bytes ++
    leBytes 2 payload.modelVersion.toNat ++ leBytes 2 payload.maxTokens.toNat ++
    leBytes 8 payload.nonce.toNat ++ payload.coordinatorPubKey.bytes

/-- `OP_RETURN`, and `OP_PUSHDATA1` with 141 bytes. -/
def inferenceOpReturn (payload : InferencePayload) : TxOut :=
  ⟨0, [0x6a, 0x4c, 0x8d] ++ serialiseInferencePayload payload⟩

structure InferenceContext extends TxContext where
  sha256d : Bytes → Hash
  newChangeScript : Except String Bytes
  watchOnly : Bool
  publish : MsgTx → Except String Hash
  unspentOutputs : List Coin

section InferenceCalls

variable (context : InferenceContext)

/-- The end of both calls, from a transaction that is ready to be broadcast. -/
def broadcast (mismatch : String) (tx : MsgTx) : Except AuthorStop MsgTx := do
  require (¬ context.watchOnly) (.error "watch-only wallet, transaction not signed")
  let txHash ← describe .error (context.publish tx)
  require (txHash = tx.txHash context.sha256d) (.error mismatch)
  return tx

/-- The coordinator's key is not set and stays zero. -/
def inferenceRequest (promptHash : FixedBytes 32) (resultAddress : Bytes)
    (maxTokens modelVersion : UInt16) (nonce : UInt64) : InferencePayload :=
  { promptHash, resultAddress := .copy 64 resultAddress, modelVersion, maxTokens, nonce
    coordinatorPubKey := .zero 32 }

def sendInferenceTx (rounds : Nat) (promptHash : FixedBytes 32) (resultAddress : Bytes)
    (feeGrains : Int64) (maxTokens modelVersion : UInt16) (nonce : UInt64) :
    Except AuthorStop MsgTx := do
  let payload := inferenceRequest promptHash resultAddress maxTokens modelVersion nonce
  let feeScript ← describe (fun error => .error ("sendinferencetx: change address: " ++ error))
    context.newChangeScript
  let created ← txToOutputs context.toTxContext rounds
    [⟨feeGrains, feeScript⟩, inferenceOpReturn payload] defaultRelayFeePerKb [] false
    txVersionInference
  broadcast context "sendinferencetx: tx hash mismatch" created.tx

def fetchInferenceUTXO (txHash : Hash) : Except String Int64 :=
  match context.unspentOutputs.find? fun coin => coin.outPoint = ⟨txHash, 0⟩ with
  | some coin => .ok coin.txOut.value
  | none => .error ("sendinferenceproof: inference_tx fee output (" ++ hashString txHash ++
      ":0) not found in wallet UTXO set — tx unknown or already spent")

def estimatedProofTxVBytes : Nat := 1280

def sendInferenceProof (rounds : Nat) (inferenceTxHash : Hash)
    (proofScript workerScript : Bytes) : Except AuthorStop MsgTx := do
  let feeAmount ← describe .error (fetchInferenceUTXO context inferenceTxHash)
  let proofTxFee := feeForSerializeSize defaultRelayFeePerKb estimatedProofTxVBytes
  let workerValue := feeAmount - proofTxFee
  require (¬ workerValue ≤ 0) (.error ("sendinferenceproof: inference fee " ++
    toString feeAmount ++ " grains too small to cover proof tx fee " ++
    toString proofTxFee ++ " grains"))
  let created ← txToOutputs context.toTxContext rounds
    [⟨0, proofScript⟩, ⟨workerValue, workerScript⟩] defaultRelayFeePerKb
    [⟨inferenceTxHash, 0⟩] false txVersionInferenceProof
  broadcast context "sendinferenceproof: tx hash mismatch" created.tx

end InferenceCalls

section Layout

variable {outputs : List TxOut} {change : TxOut} {unsigned authored : AuthoredTx}
  {random : Random} {context : TxContext} {rounds first second : Nat}
  {feeSatPerKb : Int64} {selectedUtxos : List OutPoint} {dryRun : Bool} {txVersion : Int32}

theorem perm_swapOutputs (outputs : List TxOut) (first second : Nat) :
    (swapOutputs outputs first second).Perm outputs := by
  rw [swapOutputs]
  split
  · next atFirst atSecond isFirst isSecond =>
    obtain ⟨firstLt, rfl⟩ := List.getElem?_eq_some_iff.mp isFirst
    obtain ⟨secondLt, rfl⟩ := List.getElem?_eq_some_iff.mp isSecond
    exact List.set_set_perm firstLt secondLt
  · exact .refl _

theorem swapOutputs_of_eq (same : outputs[first]? = outputs[second]?) :
    swapOutputs outputs first second = outputs := by
  rw [swapOutputs, ← same]
  cases found : outputs[first]? with
  | none => rfl
  | some txOut =>
    obtain ⟨firstLt, rfl⟩ := List.getElem?_eq_some_iff.mp found
    obtain ⟨secondLt, equal⟩ := List.getElem?_eq_some_iff.mp (same.symm.trans found)
    dsimp only
    rw [List.set_getElem_self, ← equal, List.set_getElem_self]

theorem getElem?_swapOutputs (firstLt : first < outputs.length)
    (secondLt : second < outputs.length) :
    (swapOutputs outputs first second)[first]? = outputs[second]? := by
  rw [swapOutputs, List.getElem?_eq_getElem firstLt, List.getElem?_eq_getElem secondLt]
  dsimp only
  rw [List.getElem?_set]
  split
  · next equal => simp [equal, firstLt]
  · rw [List.getElem?_set_self firstLt]

/-- The requested outputs come first, and at most one more follows. -/
def KeepsLayout (outputs : List TxOut) (tx : MsgTx) : Prop :=
  ∃ change : List TxOut, change.length ≤ 1 ∧ tx.txOut = outputs ++ change

/-- The drawn position holds what the position of the change holds, as it does when
the change is drawn itself. -/
def ChangeStays (random : Random) (unsigned : AuthoredTx) : Prop :=
  ∀ index, unsigned.changeIndex = some index →
    unsigned.tx.txOut[random.int31n unsigned.tx.txOut.length]? = unsigned.tx.txOut[index]?

theorem unsignedTx_ok
    (done : unsignedTx context rounds outputs feeSatPerKb selectedUtxos = .ok unsigned) :
    ∃ eligible source changeSource coins changeScript,
      context.findEligibleOutputs = .ok eligible ∧ context.changeSource = .ok changeSource ∧
      inputSource context eligible selectedUtxos feeSatPerKb = .ok source ∧
      Authored outputs feeSatPerKb changeSource source coins changeScript ∧
      unsigned = withChange outputs coins
        (maxRequiredFee outputs feeSatPerKb changeSource coins) changeScript := by
  simp only [unsignedTx, bind_eq_ok, describe_eq_ok] at done
  obtain ⟨_, _, changeSource, hasChange, eligible, found, source, arranged, done⟩ := done
  obtain ⟨coins, changeScript, loop, rfl⟩ := authorRounds_ok done
  exact ⟨eligible, source, changeSource, coins, changeScript, found, hasChange, arranged, loop, rfl⟩

def movedOutputs (random : Random) (unsigned : AuthoredTx) : List TxOut :=
  match unsigned.changeIndex with
  | none => unsigned.tx.txOut
  | some index =>
    swapOutputs unsigned.tx.txOut (random.int31n unsigned.tx.txOut.length) index

theorem txToOutputs_ok (done : txToOutputs context rounds outputs feeSatPerKb selectedUtxos
      dryRun txVersion = .ok authored) :
    ∃ unsigned, unsignedTx context rounds outputs feeSatPerKb selectedUtxos = .ok unsigned ∧
      authored.tx.txOut = movedOutputs context.random unsigned ∧
      authored.tx.version = (if txVersion ≠ 0 then txVersion else unsigned.tx.version) ∧
      authored.tx.txIn.map TxIn.previousOutPoint = unsigned.tx.txIn.map TxIn.previousOutPoint := by
  rw [txToOutputs, bind_eq_ok] at done
  obtain ⟨unsigned, built, done⟩ := done
  refine ⟨unsigned, built, ?_⟩
  have moved : ∀ moved,
      moved = (unsigned.setVersion txVersion).randomizeChangePosition context.random →
      moved.tx.txOut = movedOutputs context.random unsigned ∧
        moved.tx.version = (if txVersion ≠ 0 then txVersion else unsigned.tx.version) ∧
        moved.tx.txIn = unsigned.tx.txIn := by
    rintro _ rfl
    obtain ⟨tx, scripts, values, total, index⟩ := unsigned
    rw [AuthoredTx.setVersion]
    by_cases overrides : txVersion ≠ 0
    · rw [if_pos overrides, if_pos overrides]
      cases index <;> exact ⟨rfl, rfl, rfl⟩
    · rw [if_neg overrides, if_neg overrides]
      cases index <;> exact ⟨rfl, rfl, rfl⟩
  generalize (unsigned.setVersion txVersion).randomizeChangePosition context.random =
    authored' at done moved
  obtain ⟨txOut, version, txIn⟩ := moved _ rfl
  split at done
  · obtain rfl := Except.ok.inj done
    exact ⟨txOut, version, by rw [txIn]⟩
  · simp only [bind_eq_ok, describe_eq_ok, pure_eq_ok] at done
    obtain ⟨signed, signs, _, _, rfl⟩ := done
    simp only [signInputs, bind_eq_ok] at signs
    obtain ⟨watchOnly, _, signs⟩ := signs
    split at signs
    · obtain rfl := Except.ok.inj signs
      exact ⟨txOut, version, by rw [txIn]⟩
    · simp only [bind_eq_ok, pure_eq_ok] at signs
      obtain ⟨witness, _, _, _, rfl⟩ := signs
      refine ⟨txOut, version, ?_⟩
      rw [← txIn, AuthoredTx.setWitnesses]
      apply List.ext_getElem?
      intro i
      rw [List.getElem?_map, List.getElem?_map, List.getElem?_mapIdx, Option.map_map]
      rfl

theorem keepsLayout_iff
    (done : unsignedTx context rounds outputs feeSatPerKb selectedUtxos = .ok unsigned)
    (txOut : tx.txOut = movedOutputs random unsigned) :
    KeepsLayout outputs tx ↔ ChangeStays random unsigned := by
  obtain ⟨_, _, _, coins, changeScript, _, _, _, _, rfl⟩ := unsignedTx_ok done
  generalize maxRequiredFee _ _ _ coins = fee at txOut ⊢
  rw [KeepsLayout, ChangeStays, txOut, movedOutputs]
  rcases @txOut_withChange outputs coins fee changeScript with
    ⟨change, listed, index, -⟩ | ⟨listed, index⟩
  · rw [listed, index]
    simp only [Option.some.injEq, forall_eq']
    have last : outputs.length < (outputs ++ [change]).length := by simp
    have bound := random.int31n_lt (outputs ++ [change]).length (by simp)
    generalize random.int31n (outputs ++ [change]).length = drawn at bound ⊢
    constructor
    · rintro ⟨extra, _, kept⟩
      -- the drawn position then holds the change and a requested output
      by_cases own : drawn = outputs.length
      · rw [own]
      · have inside : drawn < outputs.length := by
          rw [List.length_append, List.length_singleton] at bound
          omega
        rw [← getElem?_swapOutputs bound last, kept, List.getElem?_append_left inside,
          List.getElem?_append_left inside]
    · intro same
      exact ⟨[change], le_refl _, swapOutputs_of_eq same⟩
  · rw [listed, index]
    simp only [reduceCtorEq, false_implies, implies_true, iff_true]
    exact ⟨[], Nat.zero_le _, by simp⟩

end Layout

section Sanity

variable {inference : InferenceRules} {coins : List Coin} {tx : MsgTx}

/-- Coins as a chain has them: distinct outputs of transactions, and in all no more
than there is. -/
structure Spendable (coins : List Coin) : Prop where
  distinct : (coins.map Coin.outPoint).Nodup
  notNull : ∀ coin ∈ coins, ¬ isNullOutpoint coin.outPoint
  inRange : InRange (coins.map Coin.txOut)

theorem Spendable.sublist (spendable : Spendable coins)
    (part : fewer.Sublist coins) : Spendable fewer where
  distinct := spendable.distinct.sublist (part.map _)
  notNull coin member := spendable.notNull coin (part.subset member)
  inRange := spendable.inRange.sublist (part.map _)

theorem foldlM_checkTransactionOutput (listed : List (TxOut × Nat)) {start : Int64}
    (nonneg : 0 ≤ start.toInt)
    (supported : ∀ output ∈ listed, inference.getScriptClass output.1.pkScript ≠ .nonStandardTy)
    (amounts : ∀ output ∈ listed, 0 ≤ output.1.value.toInt)
    (limit : start.toInt + (listed.map fun output => output.1.value.toInt).sum ≤ maxGrain.toInt) :
    ∃ total, listed.foldlM (checkTransactionOutput inference) start = .ok total := by
  induction listed generalizing start with
  | nil => exact ⟨start, rfl⟩
  | cons output listed ih =>
    obtain ⟨class', supported⟩ := List.forall_mem_cons.mp supported
    obtain ⟨amount, amounts⟩ := List.forall_mem_cons.mp amounts
    rw [List.map_cons, List.sum_cons] at limit
    have others : 0 ≤ (listed.map fun output => output.1.value.toInt).sum := by
      apply List.sum_nonneg
      intro value member
      obtain ⟨other, among, rfl⟩ := List.mem_map.mp member
      exact amounts other among
    have small := toInt_maxGrain
    have added : (start + output.1.value).toInt = start.toInt + output.1.value.toInt :=
      toInt_add_of_fits rfl rfl (by omega) (by omega)
    obtain ⟨total, rest⟩ := @ih (start + output.1.value) (by omega) supported amounts (by omega)
    refine ⟨total, ?_⟩
    rw [List.foldlM_cons, bind_eq_ok]
    refine ⟨start + output.1.value, ?_, rest⟩
    simp only [checkTransactionOutput, bind_eq_ok, require_eq_ok, pure, Except.pure,
      Int64.lt_iff_toInt_lt, gt_iff_lt, not_lt, Int64.toInt_zero, and_true, exists_const]
    exact ⟨.inl class', amount, by omega, by omega, by omega⟩

theorem not_isCoinBaseTx (spendable : Spendable coins)
    (spends : tx.txIn.map TxIn.previousOutPoint = coins.map Coin.outPoint) :
    isCoinBaseTx tx = false ∧ ∀ txIn ∈ tx.txIn, ¬ isNullOutpoint txIn.previousOutPoint := by
  have notNull : ∀ txIn ∈ tx.txIn, ¬ isNullOutpoint txIn.previousOutPoint := by
    intro txIn member
    have spent := List.mem_map_of_mem (f := TxIn.previousOutPoint) member
    rw [spends] at spent
    obtain ⟨coin, listed, same⟩ := List.mem_map.mp spent
    rw [← same]
    exact spendable.notNull coin listed
  refine ⟨?_, notNull⟩
  rw [isCoinBaseTx]
  split
  · next txIn only =>
    have real := notNull txIn (by rw [only]; exact List.mem_singleton_self txIn)
    simpa only [isNullOutpoint, decide_eq_true_eq, decide_eq_false_iff_not] using real
  · rfl

theorem checkTransactionSanity_eq_ok {rules : ChainRules}
    (allowed : inference.allowInferenceTx = true) (version : tx.version = txVersionInference)
    (spendable : Spendable coins) (nonempty : coins ≠ [])
    (spends : tx.txIn.map TxIn.previousOutPoint = coins.map Coin.outPoint)
    (size : getTransactionVsize tx ≤ maxBlockVsize) (first : tx.txOut.head? = some fee)
    (enough : minInferenceFeeGrains ≤ fee.value) (range : InRange tx.txOut)
    (supported : ∀ txOut ∈ tx.txOut, inference.getScriptClass txOut.pkScript ≠ .nonStandardTy) :
    checkTransactionSanity (rules.withInference inference) tx = .ok () := by
  have someInput : tx.txIn.length ≠ 0 := by
    have length := congrArg List.length spends
    rw [List.length_map, List.length_map] at length
    rw [length]
    exact fun none => nonempty (List.length_eq_zero_iff.mp none)
  have someOutput : tx.txOut.length ≠ 0 := by
    intro none
    rw [List.length_eq_zero_iff.mp none] at first
    cases first
  obtain ⟨total, summed⟩ := @foldlM_checkTransactionOutput inference tx.txOut.zipIdx 0
    (by decide) (fun output member => supported output.1 (List.fst_mem_of_mem_zipIdx member))
    (fun output member => range.nonneg output.1 (List.fst_mem_of_mem_zipIdx member)) (by
      rw [Int64.toInt_zero, Int.zero_add, map_zipIdx_txOut]
      exact range.limit)
  have pays : checkInferenceFee tx = .ok () := by
    simp only [checkInferenceFee, first, Option.map_some, bind_eq_ok, present_eq_ok,
      Option.some.injEq, exists_eq_left', require_eq_ok]
    refine ⟨(), Int64.not_lt.mpr enough, ?_⟩
    split
    · rfl
    · next payload _ =>
      apply require_pos
      rw [gt_iff_lt, UInt16.lt_iff_toNat_lt]
      have bound := payload.maxTokens.toNat_lt
      have limit : maxInferenceTokens.toNat = 65535 := rfl
      omega
  obtain ⟨notCoinBase, notNull⟩ := not_isCoinBaseTx spendable spends
  simp only [checkTransactionSanity, bind_eq_ok, require_eq_ok]
  refine ⟨(), ?_, (), spends ▸ spendable.distinct, ?_⟩
  · change BlockChain.checkTransactionOutputs inference tx = .ok ()
    simp only [BlockChain.checkTransactionOutputs, bind_eq_ok, require_eq_ok]
    refine ⟨(), someInput, (), someOutput, (), size, total, summed, (), fun _ => allowed, ?_⟩
    rw [if_pos allowed, if_neg (by rw [version]; decide), if_pos version, pays]
  · change BlockChain.checkTransactionPrevOuts tx = .ok ()
    rw [BlockChain.checkTransactionPrevOuts, if_neg (by rw [notCoinBase]; decide), forM_eq_ok]
    exact fun txIn member => require_pos (notNull txIn member)

theorem getScriptClass_of_isPayToTaproot (taproot : isPayToTaproot script) :
    getScriptClass script ≠ .nonStandardTy := by
  rw [getScriptClass]
  split
  · decide
  · decide

end Sanity

section Request

variable {fee : TxOut} {others : List TxOut} {random : Random} {context : TxContext}
  {rounds : Nat} {feeSatPerKb : Int64} {selectedUtxos : List OutPoint} {unsigned : AuthoredTx}

/-- The change is not moved to the front, or looks like the fee output. -/
def FeeStays (random : Random) (unsigned : AuthoredTx) : Prop :=
  ∀ index, unsigned.changeIndex = some index → random.int31n unsigned.tx.txOut.length = 0 →
      unsigned.tx.txOut[0]? = unsigned.tx.txOut[index]?

theorem head?_movedOutputs_iff
    (done : unsignedTx context rounds (fee :: others) feeSatPerKb selectedUtxos = .ok unsigned) :
    (movedOutputs random unsigned).head? = some fee ↔ FeeStays random unsigned := by
  obtain ⟨_, _, _, coins, changeScript, _, _, _, _, rfl⟩ := unsignedTx_ok done
  generalize maxRequiredFee _ _ _ coins = required
  rw [FeeStays, movedOutputs, List.head?_eq_getElem?]
  rcases @txOut_withChange (fee :: others) coins required changeScript with
    ⟨change, listed, index, -⟩ | ⟨listed, index⟩
  · rw [listed, index]
    simp only [Option.some.injEq, forall_eq']
    have last : (fee :: others).length < (fee :: others ++ [change]).length := by simp
    have bound := random.int31n_lt (fee :: others ++ [change]).length (by simp)
    generalize random.int31n (fee :: others ++ [change]).length = drawn at bound ⊢
    by_cases front : drawn = 0
    · subst front
      rw [getElem?_swapOutputs bound last]
      simp only [forall_const, List.cons_append, List.getElem?_cons_zero]
      exact eq_comm
    · rw [swapOutputs, List.getElem?_eq_getElem bound, List.getElem?_eq_getElem last]
      dsimp only
      rw [List.getElem?_set_ne (by simp), List.getElem?_set_ne front]
      simp [front]
  · rw [listed, index]
    simp

/-- What the wallet knows of its coins and its own scripts. -/
structure InferenceContext.Sound (context : InferenceContext) : Prop where
  feeScript : ∀ script, context.newChangeScript = .ok script → isPayToTaproot script
  changeScript : ∀ source script, context.changeSource = .ok source →
    source.newScript = .ok script → isPayToTaproot script
  coins : ∀ eligible arranged, context.findEligibleOutputs = .ok eligible →
    context.arrangeCoins eligible defaultRelayFeePerKb = .ok arranged → Spendable arranged

theorem perm_movedOutputs (random : Random) (unsigned : AuthoredTx) :
    (movedOutputs random unsigned).Perm unsigned.tx.txOut := by
  rw [movedOutputs]
  split
  · exact .refl _
  · exact perm_swapOutputs _ _ _

/-- The outputs of an unsigned request are in range, of a known kind, and paid for by
coins. -/
theorem request_wellFormed {context : InferenceContext} (sound : context.Sound)
    (enough : minInferenceFeeGrains ≤ feeGrains) (taproot : isPayToTaproot feeScript)
    (done : unsignedTx context.toTxContext rounds
      [⟨feeGrains, feeScript⟩, inferenceOpReturn payload] defaultRelayFeePerKb [] = .ok unsigned) :
    ∃ coins, Spendable coins ∧ coins ≠ [] ∧ unsigned.tx.txIn = coins.map Coin.input ∧
      InRange unsigned.tx.txOut ∧
      ∀ txOut ∈ unsigned.tx.txOut, getScriptClass txOut.pkScript ≠ .nonStandardTy := by
  obtain ⟨eligible, source, changeSource, coins, changeScript, found, hasChange, arranged,
    authored, rfl⟩ := unsignedTx_ok done
  rw [inputSource, if_pos rfl, bind_eq_ok] at arranged
  obtain ⟨available, arranged, isSource⟩ := arranged
  obtain rfl := Except.ok.inj isSource
  have spendable := (sound.coins eligible available found arranged).sublist
    authored.selected.sublist
  have fee : 1000000 ≤ feeGrains.toInt := Int64.le_iff_toInt_le.mp enough
  generalize isOutputs : [⟨feeGrains, feeScript⟩, inferenceOpReturn payload] = outputs at *
  have sum : sumOutputValues outputs = feeGrains := by
    simp [← isOutputs, sumOutputValues, inferenceOpReturn]
  obtain ⟨range, covered⟩ := authored.inRange spendable.inRange (by
      simp only [← isOutputs, List.forall_mem_cons, inferenceOpReturn]
      exact ⟨by omega, by decide, List.forall_mem_nil _⟩) (by
      rw [sum]
      simp [← isOutputs, inferenceOpReturn])
  refine ⟨coins, spendable, ?_, rfl, range, ?_⟩
  · rintro rfl
    rw [sum] at covered
    change _ ≤ (0 : Int) at covered
    omega
  · have kinds : ∀ txOut ∈ outputs, getScriptClass txOut.pkScript ≠ .nonStandardTy := by
      simp only [← isOutputs, List.forall_mem_cons]
      exact ⟨getScriptClass_of_isPayToTaproot taproot,
        by simp [getScriptClass, inferenceOpReturn], List.forall_mem_nil _⟩
    rcases @txOut_withChange outputs coins (maxRequiredFee _ _ changeSource coins)
      changeScript with ⟨change, listed, -, isChange, -⟩ | ⟨listed, -⟩
    · rw [listed]
      simp only [List.forall_mem_append, List.forall_mem_singleton]
      refine ⟨kinds, getScriptClass_of_isPayToTaproot ?_⟩
      rw [isChange]
      exact sound.changeScript changeSource changeScript hasChange authored.newScript
    · rwa [listed]

theorem sendInferenceProof_spends {context : InferenceContext} {hash : Hash}
    (done : sendInferenceProof context rounds hash proofScript workerScript = .ok tx) :
    tx.txIn.map TxIn.previousOutPoint = [⟨hash, 0⟩] := by
  simp only [sendInferenceProof, broadcast, bind_eq_ok, describe_eq_ok, require_eq_ok,
    pure_eq_ok] at done
  obtain ⟨_, _, _, _, created, built, _, _, _, _, _, _, rfl⟩ := done
  obtain ⟨unsigned, unsignedBuilt, _, _, spends⟩ := txToOutputs_ok built
  obtain ⟨eligible, source, _, coins, _, _, _, selected, authored, rfl⟩ :=
    unsignedTx_ok unsignedBuilt
  rw [inputSource, if_neg (by simp)] at selected
  simp only [bind_eq_ok, List.mapM_cons, List.mapM_nil, present_eq_ok, pure_eq_ok] at selected
  obtain ⟨_, _, _, ⟨coin, found, _, rfl, rfl⟩, rfl⟩ := selected
  have only : coins = [coin] := (authored.selected.eq_of_length_le authored.includes.length_le)
  have isIt : coin.outPoint = ⟨hash, 0⟩ := by simpa using List.find?_some found
  rw [spends, only, ← isIt]
  rfl

/-- The requested outputs keep their positions exactly if the random swap of the change
leaves them alone, and a request is sane with the fee output in front exactly if the swap
spares the front and the transaction fits a block; the proof spends the front in any case. -/
theorem inferenceRequest_layout_iff (rounds : Nat) :
    (∀ (context : TxContext) (outputs : List TxOut) (feeSatPerKb : Int64)
        (selectedUtxos : List OutPoint) (dryRun : Bool) (txVersion : Int32) (authored : AuthoredTx),
      txToOutputs context rounds outputs feeSatPerKb selectedUtxos dryRun txVersion = .ok authored →
      ∃ unsigned, unsignedTx context rounds outputs feeSatPerKb selectedUtxos = .ok unsigned ∧
        ((txVersion = txVersionInference → KeepsLayout outputs authored.tx) ↔
          (txVersion = txVersionInference → ChangeStays context.random unsigned))) ∧
    (∀ (context : InferenceContext) (rules : ChainRules) (inference : InferenceRules)
        (promptHash : FixedBytes 32) (resultAddress : Bytes)
        (feeGrains : Int64) (maxTokens modelVersion : UInt16) (nonce : UInt64) (tx : MsgTx),
      context.Sound → inference.getScriptClass = getScriptClass →
      inference.allowInferenceTx = true → minInferenceFeeGrains ≤ feeGrains →
      sendInferenceTx context rounds promptHash resultAddress feeGrains maxTokens
        modelVersion nonce = .ok tx →
      ∃ feeScript unsigned, context.newChangeScript = .ok feeScript ∧
        unsignedTx context.toTxContext rounds [⟨feeGrains, feeScript⟩, inferenceOpReturn
            (inferenceRequest promptHash resultAddress maxTokens modelVersion nonce)]
          defaultRelayFeePerKb [] = .ok unsigned ∧
        (checkTransactionSanity (rules.withInference inference) tx = .ok () ∧
            tx.txOut.head? = some ⟨feeGrains, feeScript⟩ ↔
          getTransactionVsize tx ≤ maxBlockVsize ∧ FeeStays context.random unsigned)) ∧
    ∀ (context : InferenceContext) (hash : Hash) (proofScript workerScript : Bytes) (tx : MsgTx),
      sendInferenceProof context rounds hash proofScript workerScript = .ok tx →
        tx.txIn.map TxIn.previousOutPoint = [⟨hash, 0⟩] := by
  refine ⟨?_, ?_, fun _ _ _ _ _ => sendInferenceProof_spends⟩
  · intro context outputs feeSatPerKb selectedUtxos dryRun txVersion authored done
    obtain ⟨unsigned, built, txOut, _⟩ := txToOutputs_ok done
    exact ⟨unsigned, built, imp_congr_right fun _ => keepsLayout_iff built txOut⟩
  · intro context rules inference promptHash resultAddress feeGrains maxTokens
      modelVersion nonce tx sound classes allowed enough done
    simp only [sendInferenceTx, broadcast, bind_eq_ok, describe_eq_ok, require_eq_ok,
      pure_eq_ok] at done
    obtain ⟨feeScript, isScript, created, built, _, _, _, _, _, _, rfl⟩ := done
    obtain ⟨unsigned, unsignedBuilt, txOut, version, spends⟩ := txToOutputs_ok built
    obtain ⟨coins, spendable, nonempty, txIn, range, kinds⟩ := request_wellFormed sound enough
      (sound.feeScript feeScript isScript) unsignedBuilt
    have moved := perm_movedOutputs context.random unsigned
    refine ⟨feeScript, unsigned, isScript, unsignedBuilt, ?_⟩
    rw [← head?_movedOutputs_iff unsignedBuilt, ← txOut] at *
    constructor
    · rintro ⟨sane, front⟩
      refine ⟨?_, front⟩
      simp only [checkTransactionSanity, bind_eq_ok] at sane
      obtain ⟨_, outputs, _⟩ := sane
      change BlockChain.checkTransactionOutputs inference created.tx = .ok _ at outputs
      simp only [BlockChain.checkTransactionOutputs, bind_eq_ok, require_eq_ok] at outputs
      obtain ⟨_, _, _, _, _, size, _⟩ := outputs
      exact size
    · rintro ⟨size, front⟩
      refine ⟨checkTransactionSanity_eq_ok allowed version spendable nonempty ?_ size front
        enough (range.perm moved) ?_, front⟩
      · rw [spends, txIn, List.map_map]
        rfl
      · intro txOut member
        rw [classes]
        exact kinds txOut (moved.mem_iff.mp member)

end Request

namespace RequestExample

def walletScript : Bytes :=
  [0x51, 0x20] ++ (FixedBytes.ofNat 32
    0x5cbdf0646e5db4eaa398f365f2ea7a0e3d419b7e0330e39ce92bddedcac4f9bc).bytes

def feeOut : TxOut :=
  ⟨1000000, [0x51, 0x20] ++ (FixedBytes.ofNat 32
    0x774ae7f858a9411e5ef4246b70c65aac5649980be5c17891bbec17895da008cb).bytes⟩

def change : TxOut :=
  ⟨501692, walletScript⟩

def payloadOut : TxOut :=
  inferenceOpReturn (inferenceRequest (.zero 32) [] 256 1 5)

def coin : Coin :=
  ⟨⟨.fill 32 0x11, 0⟩, ⟨1502000, walletScript⟩⟩

/-- A wallet with one coin, whose signature and transaction hash are those of the one
transaction it makes. -/
def context (random : Random) (signature : FixedBytes 64) (txHash : Hash) : InferenceContext where
  requireChainClient := .ok ()
  changeSource := .ok ⟨.ok walletScript, p2TRPkScriptSize⟩
  findEligibleOutputs := .ok [coin]
  arrangeCoins coins _ := .ok coins
  random := random
  isWatchOnlyAccount := .ok false
  addAllInputScripts _ := .ok fun _ => [signature.bytes]
  validateMsgTx _ := .ok ()
  notifyReceived _ := .ok ()
  sha256d _ := txHash
  newChangeScript := .ok feeOut.pkScript
  watchOnly := false
  publish _ := .ok txHash
  unspentOutputs := [coin]

def inference : InferenceRules :=
  { ForwardSpend.inference with getScriptClass := getScriptClass }

def requestTx (signature : FixedBytes 64) (txOut : List TxOut) : MsgTx :=
  ⟨3, [{ coin.input with witness := [signature.bytes] }], txOut, 0⟩

def keptSignature : FixedBytes 64 := .ofNat 64
  0x69961ebb9390a317a560e99606cddb3ec1a080ae963f5218656f81813f86c91dbef21c754234bcc5e7bd8bbfbc42da8192f76ab165b34a20427fcea8f5b7db72

def keptContext : InferenceContext :=
  context ⟨fun count => count - 1, fun count positive => by omega⟩ keptSignature
    (.ofNat 32 0x8712eb9aad0ec4420052a2be1a99315441df6472def247ef3f0b63de406b1df8)

def proofSignature : FixedBytes 64 := .ofNat 64
  0x990e2a53257ad20772c91ea7f2ce6248a39e99e83003514248dda79a3c5f8d025a12c658ed947916171abea09512032e53f4c0e975b47af7c1cfe12a383ffa8b

/-- The same wallet, asked to spend the coin as the fee output of a request. -/
def proofContext : InferenceContext :=
  context keptContext.random proofSignature
    (.ofNat 32 0x37cb7d17a0807fb18187c49d9c02fede162f636a80d0fd2ad43f51187cd88c50)

def proofTx : MsgTx :=
  { requestTx proofSignature [⟨0, [0x6a]⟩, ⟨1500720, feeOut.pkScript⟩, ⟨1115, walletScript⟩]
    with version := txVersionInferenceProof }

theorem keptContext_sound : keptContext.Sound where
  feeScript script isScript := by
    cases isScript
    decide
  changeScript source script isSource isScript := by
    cases isSource
    cases isScript
    decide
  coins eligible arranged found isArranged := by
    cases found
    cases isArranged
    exact ⟨by simp, by decide, by decide, by decide⟩

end RequestExample

open RequestExample in
theorem inferenceRequest_layout_kept : sendInferenceTx keptContext 2 (.zero 32) [] 1000000 256 1 5 =
      .ok (requestTx keptSignature [feeOut, payloadOut, change]) ∧
    (∃ unsigned, unsignedTx keptContext.toTxContext 2 [feeOut, payloadOut]
        defaultRelayFeePerKb [] = .ok unsigned ∧ FeeStays keptContext.random unsigned) ∧
    (∃ unsigned, unsignedTx keptContext.toTxContext 2 [feeOut, payloadOut]
        defaultRelayFeePerKb [] = .ok unsigned ∧ ChangeStays keptContext.random unsigned) ∧
    proofTx.txIn.map TxIn.previousOutPoint = [⟨coin.outPoint.hash, 0⟩] := by
  have sent : sendInferenceTx keptContext 2 (.zero 32) [] 1000000 256 1 5 =
      .ok (requestTx keptSignature [feeOut, payloadOut, change]) := by
    decide +kernel
  obtain ⟨feeScript, unsigned, isScript, built, sane⟩ := (inferenceRequest_layout_iff 2).2.1
    keptContext ForwardSpend.rules inference (.zero 32) [] 1000000 256 1 5 _
    keptContext_sound rfl (by decide) (by decide) sent
  cases isScript
  obtain ⟨unsigned', built', stays⟩ := (inferenceRequest_layout_iff 2).1 keptContext.toTxContext
    [feeOut, payloadOut] defaultRelayFeePerKb [] false txVersionInference
    ⟨requestTx keptSignature [feeOut, payloadOut, change], [walletScript], [1502000], 1502000,
      some 2⟩ (by decide +kernel)
  refine ⟨sent, ⟨unsigned, built, (sane.mp ⟨by decide +kernel, rfl⟩).2⟩,
    ⟨unsigned', built', stays.mp (fun _ => ⟨[change], le_refl _, rfl⟩) rfl⟩, ?_⟩
  exact (inferenceRequest_layout_iff 2).2.2 proofContext coin.outPoint.hash [0x6a]
    feeOut.pkScript proofTx (by decide)

open RequestExample in
theorem inferenceRequest_layout_broken :
    let signature := FixedBytes.ofNat 64
      0xd6e05faa4a4fb7801aaca37463247b27987e79287f7502e8b81acf2ef1a19c8a01a605430a9e503c29ca8a5178256a6fe88b376b7cad297165fc0347d0004b96
    let context := context ⟨fun _ => 0, fun _ positive => positive⟩ signature
      (.ofNat 32 0x7cf92abc3406e40956ecc8bea2456aaee210195d4f67391c21b5d220bc9bbeb0)
    sendInferenceTx context 2 (.zero 32) [] 1000000 256 1 5 =
      .ok (requestTx signature [change, payloadOut, feeOut]) ∧
    checkTransactionSanity (ForwardSpend.rules.withInference inference)
        (requestTx signature [change, payloadOut, feeOut]) =
      .error (ruleError .errBadTxOutValue ("inference_tx fee output 501692 grains is below " ++
        "minimum 1000000 grains (0.01 MDL); increase fee for faster inclusion")) := by
  decide +kernel

end ModelOS.Wallet
