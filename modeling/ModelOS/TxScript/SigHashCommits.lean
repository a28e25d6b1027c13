import ModelOS.TxScript.SigHash

namespace ModelOS.TxScript

open Data Wire

/-- A signature check of an input that spends a taproot or merkle-root output,
with a hash type that covers all inputs. -/
structure SpendContext where
  tx : MsgTx
  prevOuts : OutPoint → TxOut
  idx : Nat
  hType : SigHashType
  path : SpendPath
  inputs_le : tx.txIn.length ≤ 2 ^ 32
  idx_lt : idx < tx.txIn.length
  spends : ∀ txIn, tx.txIn[idx]? = some txIn →
    isPayToTaproot (prevOuts txIn.previousOutPoint).pkScript ∨
      (isPayToMerkleRoot (prevOuts txIn.previousOutPoint).pkScript ∧
        ∃ tapscriptCtx, path = .scriptPath tapscriptCtx)
  hType_mem : hType ∈ [sigHashDefault, sigHashAll, sigHashNone, sigHashSingle]
  outputsFit : ∀ txOut ∈ tx.txOut, FitsLength txOut.pkScript
  prevOutsFit : ∀ txIn ∈ tx.txIn, FitsLength (prevOuts txIn.previousOutPoint).pkScript
  annexFits : ∀ annex ∈ path.annex, FitsLength annex

namespace SpendContext

def fetcher (context : SpendContext) : PrevOutputFetcher :=
  fun outPoint => some (context.prevOuts outPoint)

def spent (context : SpendContext) : List TxOut :=
  context.tx.txIn.map fun txIn => context.prevOuts txIn.previousOutPoint

def spendsTaproot (context : SpendContext) (txIn : TxIn) : Bool :=
  !isNullOutPoint txIn.previousOutPoint &&
    isPayToTaproot (context.prevOuts txIn.previousOutPoint).pkScript

def hasTaprootInput (context : SpendContext) : Bool :=
  context.tx.txIn.any context.spendsTaproot

variable (sha256 : Bytes → Hash)

def digest (context : SpendContext) : Except String Hash :=
  signatureDigest sha256 context.path context.hType context.tx context.idx context.fetcher

/-- The outputs that the hash type selects. -/
def selectedOutputs (context : SpendContext) : List (Option TxOut) :=
  if context.hType = sigHashNone then []
  else if context.hType = sigHashSingle then [context.tx.txOut[context.idx]?]
  else context.tx.txOut.map some

/-- Two contexts that a signer would call the same spend. -/
structure SameSpend (first second : SpendContext) : Prop where
  version : first.tx.version = second.tx.version
  lockTime : first.tx.lockTime = second.tx.lockTime
  idx : first.idx = second.idx
  hType : first.hType = second.hType
  /-- The spend type, the annex, and for script paths the leaf hash and the code
  separator position. -/
  path : first.path = second.path
  outPoints : first.tx.txIn.map TxIn.previousOutPoint = second.tx.txIn.map TxIn.previousOutPoint
  sequences : first.tx.txIn.map TxIn.sequence = second.tx.txIn.map TxIn.sequence
  amounts : first.spent.map TxOut.value = second.spent.map TxOut.value
  scripts : first.spent.map TxOut.pkScript = second.spent.map TxOut.pkScript
  outputs : first.selectedOutputs = second.selectedOutputs

end SpendContext

theorem scanInputs_total (prevOuts : OutPoint → TxOut) (inputs : List TxIn)
    (hasV0Inputs hasV1Inputs : Bool) :
    ∃ hasV0, scanInputs (fun outPoint => some (prevOuts outPoint)) inputs hasV0Inputs hasV1Inputs =
      .ok (hasV0, hasV1Inputs || inputs.any fun txIn =>
        !isNullOutPoint txIn.previousOutPoint &&
          isPayToTaproot (prevOuts txIn.previousOutPoint).pkScript) := by
  induction inputs generalizing hasV0Inputs hasV1Inputs with
  | nil => exact ⟨hasV0Inputs, by simp [scanInputs]⟩
  | cons txIn rest ih =>
    rw [scanInputs]
    by_cases null : isNullOutPoint txIn.previousOutPoint
    · rw [if_pos null]
      obtain ⟨hasV0, scanned⟩ := ih true hasV1Inputs
      exact ⟨hasV0, by simp [scanned, null]⟩
    · rw [if_neg null]
      simp only
      cases taproot : isPayToTaproot (prevOuts txIn.previousOutPoint).pkScript with
      | false =>
        obtain ⟨hasV0, scanned⟩ := ih true hasV1Inputs
        cases hasV1Inputs with
        | false => exact ⟨hasV0, by simp [scanned, taproot]⟩
        | true => exact ⟨true, by simp⟩
      | true =>
        obtain ⟨hasV0, scanned⟩ := ih hasV0Inputs true
        cases hasV0Inputs with
        | false => exact ⟨hasV0, by simp [scanned, taproot, null]⟩
        | true => exact ⟨true, by simp [taproot, null]⟩

namespace SpendContext

variable (sha256 : Bytes → Hash)

def amountsHash (context : SpendContext) : Hash :=
  if context.hasTaprootInput then sha256 (inputAmountsMessage context.spent)
  else .zero 32

def scriptsHash (context : SpendContext) : Hash :=
  if context.hasTaprootInput then sha256 (inputScriptsMessage context.spent)
  else .zero 32

def taprootMidstate (context : SpendContext) : TaprootSigHashMidState where
  hashPrevOutsV1 := sha256 (prevOutsMessage context.tx)
  hashSequenceV1 := sha256 (sequenceMessage context.tx)
  hashOutputsV1 := sha256 (outputsMessage context.tx)
  hashInputScriptsV1 := context.scriptsHash sha256
  hashInputAmountsV1 := context.amountsHash sha256

def inputDigests (context : SpendContext) : Bytes :=
  (sha256 (prevOutsMessage context.tx)).bytes ++
    ((context.amountsHash sha256).bytes ++ ((context.scriptsHash sha256).bytes ++
        (sha256 (sequenceMessage context.tx)).bytes))

def outputDigest (context : SpendContext) : Bytes :=
  if context.hType = sigHashDefault ∨ context.hType = sigHashAll then
    (sha256 (outputsMessage context.tx)).bytes
  else []

def annexDigest (context : SpendContext) : Bytes :=
  match context.path.annex with
  | some annex => (sha256 (writeVarBytes annex)).bytes
  | none => []

def extensions (context : SpendContext) : Bytes :=
  match context.path with
  | .keyPath _ => []
  | .scriptPath tapscriptCtx => tapscriptCtx.tapLeafHash.bytes ++
      ([0] ++ leBytes 4 tapscriptCtx.codeSepPos.toNat)

def spendByte (context : SpendContext) : UInt8 :=
  spendType (context.path.options sha256)

/-- The signature message, given what it holds of a single output. -/
def message (context : SpendContext) (single : Bytes) : Bytes :=
  [0x00] ++ ([context.hType.toUInt8] ++ (leBytes 4 context.tx.version.toUInt32.toNat ++
      (leBytes 4 context.tx.lockTime.toNat ++
        (context.inputDigests sha256 ++ (context.outputDigest sha256 ++
          ([context.spendByte sha256] ++ (leBytes 4 (UInt32.ofNat context.idx).toNat ++
              (context.annexDigest sha256 ++ (single ++ context.extensions)))))))))

def sigMsg (context : SpendContext) : Except String Bytes :=
  (singleOutputBytes sha256 context.tx context.hType context.idx).map (context.message sha256)

theorem fetchPrevOutputs_fetcher (context : SpendContext) :
    fetchPrevOutputs context.fetcher context.tx = .ok context.spent := by
  simp only [fetchPrevOutputs, fetcher, present]
  exact List.mapM_pure

theorem newTxSigHashes_eq (context : SpendContext) :
    ∃ segwit, newTxSigHashes sha256 context.tx context.fetcher =
      .ok { segwit, taproot := context.taprootMidstate sha256 } := by
  obtain ⟨hasV0, scanned⟩ := scanInputs_total context.prevOuts context.tx.txIn false false
  have needed : scanInputs context.fetcher context.tx.txIn false false =
      .ok (hasV0, context.hasTaprootInput) := scanned
  have hashes : taprootInputHashes sha256 context.fetcher context.tx context.hasTaprootInput =
        .ok (context.amountsHash sha256, context.scriptsHash sha256) := by
    unfold amountsHash scriptsHash taprootInputHashes
    cases context.hasTaprootInput with
    | false => rfl
    | true =>
      rw [fetchPrevOutputs_fetcher]
      rfl
  simp only [newTxSigHashes, needed, hashes, bind, Except.bind, pure_eq_ok, TxSigHashes.mk.injEq]
  exact ⟨_, rfl, rfl⟩

theorem options_annexHash (path : SpendPath) : (path.options sha256).annexHash =
      path.annex.map fun annex => sha256 (writeVarBytes annex) := by
  rcases path with annex | ⟨annex, codeSepPos, tapLeafHash⟩ <;> cases annex <;> rfl

section

variable (context : SpendContext)
include context

theorem writeDigestExtensions_options :
    (context.path.options sha256).writeDigestExtensions = context.extensions := by
  unfold extensions
  rcases context.path with annex | ⟨annex, codeSepPos, tapLeafHash⟩ <;> cases annex <;>
    simp [SpendPath.options, annexOptions, withAnnex, withBaseTapscriptVersion,
      TaprootSigHashOptions.writeDigestExtensions]

theorem hType_cases : context.hType = sigHashDefault ∨ context.hType = sigHashAll ∨
      context.hType = sigHashNone ∨ context.hType = sigHashSingle := by
  simpa using context.hType_mem

theorem outputsBytes_eq (segwit : SegwitSigHashMidstate) :
    outputsBytes { segwit, taproot := context.taprootMidstate sha256 }
      context.hType = context.outputDigest sha256 := by
  unfold outputsBytes outputDigest
  rcases context.hType_cases with kind | kind | kind | kind <;> rw [kind] <;> rfl

theorem taprootSigMsg_eq (segwit : SegwitSigHashMidstate) :
    taprootSigMsg sha256 { segwit, taproot := context.taprootMidstate sha256 }
      context.hType context.tx context.idx context.fetcher
      (context.path.options sha256) = context.sigMsg sha256 := by
  have valid : isValidTaprootSigHash context.hType := by
    rcases context.hType_cases with kind | kind | kind | kind <;> rw [kind] <;> decide
  have coversInputs : isAnyOneCanPay context.hType = false := by
    rcases context.hType_cases with kind | kind | kind | kind <;> rw [kind] <;> decide
  obtain ⟨txIn, input⟩ : ∃ txIn, context.tx.txIn[context.idx]? = some txIn :=
    Option.isSome_iff_exists.mp (by simp [context.idx_lt])
  have inputPart : inputBytes context.fetcher context.hType txIn context.idx =
      .ok (leBytes 4 (UInt32.ofNat context.idx).toNat) := by
    rw [inputBytes, coversInputs]
    rfl
  have midstatePart : midstateBytes
      { segwit, taproot := context.taprootMidstate sha256 } context.hType =
        context.inputDigests sha256 := by
    rw [midstateBytes, coversInputs]
    simp [inputDigests, taprootMidstate]
  have annexPart : (context.path.options sha256).annexBytes = context.annexDigest sha256 := by
    rw [TaprootSigHashOptions.annexBytes, options_annexHash, annexDigest]
    cases context.path.annex <;> rfl
  unfold taprootSigMsg sigMsg
  rw [annexPart, midstatePart, outputsBytes_eq, writeDigestExtensions_options, input]
  simp only [require, valid, present, inputPart, bind, Except.bind, if_true]
  cases singleOutputBytes sha256 context.tx context.hType context.idx with
  | error error => rfl
  | ok single =>
    simp only [Except.map, pure, Except.pure, message, List.append_assoc]
    rfl

theorem digest_eq : context.digest sha256 =
      (context.sigMsg sha256).map (taggedHash sha256 tagTapSighash) := by
  obtain ⟨segwit, midstates⟩ := newTxSigHashes_eq sha256 context
  have raw : context.digest sha256 = calcTaprootSignatureHashRaw sha256
      { segwit, taproot := context.taprootMidstate sha256 }
      context.hType context.tx context.idx context.fetcher (context.path.options sha256) := by
    unfold digest signatureDigest
    rw [midstates]
    cases context.path <;> rfl
  rw [raw, calcTaprootSignatureHashRaw, taprootSigMsg_eq sha256 context]
  cases context.sigMsg sha256 <;> rfl

end

def hashed (context : SpendContext) : List Bytes :=
  [prevOutsMessage context.tx, sequenceMessage context.tx, outputsMessage context.tx] ++
  (if context.hasTaprootInput then
    [inputAmountsMessage context.spent, inputScriptsMessage context.spent]
  else []) ++
  context.path.annex.toList.map writeVarBytes ++
  (if context.hType = sigHashSingle then
    context.tx.txOut[context.idx]?.toList.map writeTxOut
  else []) ++
  (context.sigMsg sha256).toOption.toList.map (taggedMessage sha256 tagTapSighash)

/-- No two messages of the two computations share a digest, and none has the
digest that an unset midstate holds. -/
structure CollisionFree (first second : SpendContext) : Prop where
  injOn : Set.InjOn sha256
    {message | message ∈ first.hashed sha256 ∨ message ∈ second.hashed sha256}
  ne_zero : ∀ message, message ∈ first.hashed sha256 ∨ message ∈ second.hashed sha256 →
      sha256 message ≠ .zero 32

def CommitsToSpend (context : SpendContext) : Prop :=
  ∀ other, CollisionFree sha256 context other →
    context.digest sha256 = other.digest sha256 → SameSpend context other

variable {first second : SpendContext}

theorem prevOuts_injective (equality : prevOutsMessage first.tx = prevOutsMessage second.tx) :
    first.tx.txIn.map TxIn.previousOutPoint = second.tx.txIn.map TxIn.previousOutPoint :=
  (@writeOutPoint_prefixFree fun _ => True).flatMap_field_injective
    writeOutPoint_ne_nil _ (fun _ _ => trivial) (fun _ _ => trivial) equality

theorem sequences_injective (equality : sequenceMessage first.tx = sequenceMessage second.tx) :
    first.tx.txIn.map TxIn.sequence = second.tx.txIn.map TxIn.sequence :=
  (@leBytes_uint32_prefixFree fun _ => True).flatMap_field_injective
    (fun _ => leBytes_ne_nil (by decide) _) _ (fun _ _ => trivial) (fun _ _ => trivial) equality

theorem amounts_injective
    (equality : inputAmountsMessage first.spent = inputAmountsMessage second.spent) :
    first.spent.map TxOut.value = second.spent.map TxOut.value :=
  (@leBytes_int64_prefixFree fun _ => True).flatMap_field_injective
    (fun _ => leBytes_ne_nil (by decide) _) _ (fun _ _ => trivial) (fun _ _ => trivial) equality

theorem spent_fits (context : SpendContext) :
    ∀ prevOut ∈ context.spent, FitsLength prevOut.pkScript :=
  List.forall_mem_map.mpr context.prevOutsFit

theorem scripts_injective
    (equality : inputScriptsMessage first.spent = inputScriptsMessage second.spent) :
    first.spent.map TxOut.pkScript = second.spent.map TxOut.pkScript :=
  writeVarBytes_prefixFree.flatMap_field_injective writeVarBytes_ne_nil _
    first.spent_fits second.spent_fits equality

theorem outputs_injective (equality : outputsMessage first.tx = outputsMessage second.tx) :
    first.tx.txOut = second.tx.txOut :=
  writeTxOut_prefixFree.flatMap_injective writeTxOut_ne_nil first.outputsFit
    second.outputsFit equality

def isScriptPath (context : SpendContext) : Bool :=
  match context.path with
  | .keyPath _ => false
  | .scriptPath _ => true

def hasAnnex (context : SpendContext) : Bool :=
  context.path.annex.isSome

theorem spendByte_eq (context : SpendContext) : context.spendByte sha256 =
      (if context.isScriptPath then 1 else 0) * 2 +
        if context.hasAnnex then 1 else 0 := by
  unfold spendByte isScriptPath hasAnnex
  rcases context.path with (_ | annex) | ⟨_ | annex, codeSepPos, leafHash⟩ <;> rfl

theorem spendByte_injective (equality : first.spendByte sha256 = second.spendByte sha256) :
    first.isScriptPath = second.isScriptPath ∧ first.hasAnnex = second.hasAnnex := by
  rw [spendByte_eq, spendByte_eq] at equality
  revert equality
  generalize first.isScriptPath = script
  generalize first.hasAnnex = annex
  generalize second.isScriptPath = script'
  generalize second.hasAnnex = annex'
  revert script annex script' annex'
  decide

theorem length_annexDigest (context : SpendContext) :
    (context.annexDigest sha256).length = if context.hasAnnex then 32 else 0 := by
  unfold annexDigest hasAnnex
  cases context.path.annex <;> simp

theorem hType_injective
    (equality : [first.hType.toUInt8] = [second.hType.toUInt8]) : first.hType = second.hType := by
  have byte := List.singleton_injective equality
  rcases first.hType_cases with kind | kind | kind | kind <;>
    rcases second.hType_cases with kind' | kind' | kind' | kind' <;> rw [kind, kind'] at byte ⊢ <;>
    revert byte <;> decide

theorem length_inputDigests (context : SpendContext) :
    (context.inputDigests sha256).length = 128 := by
  simp [inputDigests]

theorem length_outputDigest (hType : first.hType = second.hType) :
    (first.outputDigest sha256).length = (second.outputDigest sha256).length := by
  unfold outputDigest
  rw [hType]
  split <;> simp

variable {context : SpendContext}

theorem length_single
    (written : singleOutputBytes sha256 context.tx context.hType context.idx = .ok single) :
    single.length = if context.hType = sigHashSingle then 32 else 0 := by
  unfold singleOutputBytes at written
  rcases context.hType_cases with kind | kind | kind | kind
  all_goals rw [kind] at written ⊢
  · cases written
    rfl
  · cases written
    rfl
  · cases written
    rfl
  · simp only [show sigHashSingle &&& sigHashMask = sigHashSingle from rfl, if_true,
      bind_eq_ok, present_eq_ok, pure_eq_ok] at written
    obtain ⟨txOut, -, rfl⟩ := written
    simp

theorem idx_injective (equality : leBytes 4 (UInt32.ofNat first.idx).toNat =
      leBytes 4 (UInt32.ofNat second.idx).toNat) : first.idx = second.idx := by
  have words := leBytes_injective (UInt32.ofNat first.idx).toNat_lt
    (UInt32.ofNat second.idx).toNat_lt equality
  rwa [UInt32.toNat_ofNat_of_lt' (first.idx_lt.trans_le first.inputs_le),
    UInt32.toNat_ofNat_of_lt' (second.idx_lt.trans_le second.inputs_le)]
    at words

structure SameFields (first second : SpendContext) (single single' : Bytes) : Prop where
  hType : first.hType = second.hType
  version : first.tx.version = second.tx.version
  lockTime : first.tx.lockTime = second.tx.lockTime
  inputDigests : first.inputDigests sha256 = second.inputDigests sha256
  outputDigest : first.outputDigest sha256 = second.outputDigest sha256
  spendByte : first.spendByte sha256 = second.spendByte sha256
  idx : first.idx = second.idx
  annexDigest : first.annexDigest sha256 = second.annexDigest sha256
  single : single = single'
  extensions : first.extensions = second.extensions

theorem message_injective
    (firstSingle : singleOutputBytes sha256 first.tx first.hType first.idx = .ok single)
    (secondSingle : singleOutputBytes sha256 second.tx second.hType second.idx = .ok single')
    (equality : first.message sha256 single = second.message sha256 single') :
    SameFields sha256 first second single single' := by
  obtain ⟨-, afterEpoch⟩ := List.append_inj equality rfl
  obtain ⟨typeByte, afterType⟩ := List.append_inj afterEpoch rfl
  have hType := hType_injective typeByte
  obtain ⟨version, afterVersion⟩ := List.append_inj afterType (by simp)
  obtain ⟨lockTime, afterLockTime⟩ := List.append_inj afterVersion (by simp)
  obtain ⟨inputDigests, afterInputs⟩ := List.append_inj afterLockTime
    ((first.length_inputDigests sha256).trans (second.length_inputDigests sha256).symm)
  obtain ⟨outputDigest, afterOutputs⟩ := List.append_inj afterInputs
    (length_outputDigest sha256 hType)
  obtain ⟨spendByte, afterSpend⟩ := List.append_inj afterOutputs rfl
  have spendByte := List.singleton_injective spendByte
  obtain ⟨idx, afterIdx⟩ := List.append_inj afterSpend (by simp)
  obtain ⟨annexDigest, afterAnnex⟩ := List.append_inj afterIdx (by
    rw [length_annexDigest, length_annexDigest, (spendByte_injective sha256 spendByte).2])
  obtain ⟨singles, extensions⟩ := List.append_inj afterAnnex (by
    rw [length_single sha256 firstSingle, length_single sha256 secondSingle, hType])
  exact {
    hType, inputDigests, outputDigest, spendByte, annexDigest, extensions
    version := congrArg Int32.ofUInt32 (UInt32.toNat_inj.mp
      (leBytes_injective (UInt32.toNat_lt _) (UInt32.toNat_lt _) version))
    lockTime := UInt32.toNat_inj.mp
      (leBytes_injective (UInt32.toNat_lt _) (UInt32.toNat_lt _) lockTime)
    idx := idx_injective idx
    single := singles }

variable {sha256} {first second : SpendContext} {single single' : Bytes}

section

variable (fields : SameFields sha256 first second single single')
include fields

theorem SameFields.digests :
    sha256 (prevOutsMessage first.tx) = sha256 (prevOutsMessage second.tx) ∧
      first.amountsHash sha256 = second.amountsHash sha256 ∧
      first.scriptsHash sha256 = second.scriptsHash sha256 ∧ sha256 (sequenceMessage first.tx) =
        sha256 (sequenceMessage second.tx) := by
  obtain ⟨prevOuts, afterPrevOuts⟩ := List.append_inj fields.inputDigests (by simp)
  obtain ⟨amounts, afterAmounts⟩ := List.append_inj afterPrevOuts (by simp)
  obtain ⟨scripts, sequences⟩ := List.append_inj afterAmounts (by simp)
  exact ⟨FixedBytes.ext prevOuts, FixedBytes.ext amounts,
    FixedBytes.ext scripts, FixedBytes.ext sequences⟩

variable (free : CollisionFree sha256 first second)
include free

theorem SameFields.hasTaprootInput (taproot : first.hasTaprootInput) : second.hasTaprootInput := by
  have amounts := fields.digests.2.1
  unfold amountsHash at amounts
  rw [if_pos taproot] at amounts
  by_contra unset
  rw [if_neg unset] at amounts
  exact free.ne_zero _ (.inl (by simp [hashed, taproot])) amounts

theorem SameFields.spent_eq (taproot : first.hasTaprootInput) :
    first.spent.map TxOut.value = second.spent.map TxOut.value ∧
      first.spent.map TxOut.pkScript = second.spent.map TxOut.pkScript := by
  have taproot' := fields.hasTaprootInput free taproot
  obtain ⟨-, amounts, scripts, -⟩ := fields.digests
  rw [amountsHash, amountsHash, if_pos taproot, if_pos taproot'] at amounts
  rw [scriptsHash, scriptsHash, if_pos taproot, if_pos taproot'] at scripts
  constructor
  · apply amounts_injective
    exact free.injOn (.inl (by simp [hashed, taproot])) (.inr (by simp [hashed, taproot'])) amounts
  · apply scripts_injective
    exact free.injOn (.inl (by simp [hashed, taproot])) (.inr (by simp [hashed, taproot'])) scripts

theorem SameFields.annex_eq : first.path.annex = second.path.annex := by
  have present := (spendByte_injective sha256 fields.spendByte).2
  have digests := fields.annexDigest
  unfold hasAnnex at present
  unfold SpendContext.annexDigest at digests
  cases firstAnnex : first.path.annex with
  | none =>
    rw [firstAnnex] at present
    exact (Option.isNone_iff_eq_none.mp (Option.isSome_eq_false_iff.mp present.symm)).symm
  | some annex =>
    rw [firstAnnex] at present digests
    obtain ⟨annex', secondAnnex⟩ := Option.isSome_iff_exists.mp present.symm
    rw [secondAnnex] at digests ⊢
    have messages := free.injOn (.inl (by simp [hashed, firstAnnex]))
      (.inr (by simp [hashed, secondAnnex])) (FixedBytes.ext digests)
    rw [writeVarBytes_prefixFree.injective (first.annexFits annex firstAnnex)
      (second.annexFits annex' secondAnnex) messages]

theorem SameFields.path_eq : first.path = second.path := by
  have annexes := fields.annex_eq free
  have kinds := (spendByte_injective sha256 fields.spendByte).1
  have extensions := fields.extensions
  unfold isScriptPath at kinds
  unfold SpendContext.extensions at extensions
  revert annexes kinds extensions
  rcases first.path with annex | ⟨annex, codeSepPos, leafHash⟩ <;>
    rcases second.path with annex' | ⟨annex', codeSepPos', leafHash'⟩ <;>
    intro annexes kinds extensions
  · exact congrArg SpendPath.keyPath annexes
  · cases kinds
  · cases kinds
  · obtain ⟨leaf, afterLeaf⟩ := List.append_inj extensions (by simp)
    obtain ⟨-, codeSep⟩ := List.append_inj afterLeaf rfl
    have position : codeSepPos = codeSepPos' := UInt32.toNat_inj.mp
      (leBytes_injective (UInt32.toNat_lt _) (UInt32.toNat_lt _) codeSep)
    have leafHashes : leafHash = leafHash' := FixedBytes.ext leaf
    rw [show annex = annex' from annexes, position, leafHashes]

end

theorem single_message (context : SpendContext)
    (kind : context.hType = sigHashSingle)
    (written : singleOutputBytes sha256 context.tx context.hType context.idx = .ok single) :
    ∃ txOut, context.tx.txOut[context.idx]? = some txOut ∧
      single = (sha256 (writeTxOut txOut)).bytes := by
  unfold singleOutputBytes at written
  rw [kind] at written
  simp only [show sigHashSingle &&& sigHashMask = sigHashSingle from rfl, if_true,
    bind_eq_ok, present_eq_ok, pure_eq_ok] at written
  obtain ⟨txOut, found, rfl⟩ := written
  exact ⟨txOut, found, rfl⟩

theorem SameFields.outputs_eq (fields : SameFields sha256 first second single single')
    (free : CollisionFree sha256 first second)
    (firstSingle : singleOutputBytes sha256 first.tx first.hType first.idx = .ok single)
    (secondSingle : singleOutputBytes sha256 second.tx second.hType second.idx = .ok single') :
    first.selectedOutputs = second.selectedOutputs := by
  have hType := fields.hType
  have whole : (first.hType = sigHashDefault ∨ first.hType = sigHashAll) →
      first.tx.txOut = second.tx.txOut := by
    intro kind
    have digests := fields.outputDigest
    unfold SpendContext.outputDigest at digests
    rw [← hType, if_pos kind, if_pos kind] at digests
    apply outputs_injective
    exact free.injOn (.inl (by simp [hashed])) (.inr (by simp [hashed])) (FixedBytes.ext digests)
  unfold selectedOutputs
  rw [← hType]
  rcases first.hType_cases with kind | kind | kind | kind
  · rw [whole (.inl kind)]
    simp [kind, sigHashDefault, sigHashNone, sigHashSingle]
  · rw [whole (.inr kind)]
    simp [kind, sigHashAll, sigHashNone, sigHashSingle]
  · rw [if_pos kind, if_pos kind]
  · obtain ⟨txOut, found, written⟩ := first.single_message kind firstSingle
    obtain ⟨txOut', found', written'⟩ := second.single_message (hType ▸ kind) secondSingle
    have digests := fields.single
    rw [written, written'] at digests
    have messages := free.injOn (.inl (by simp [hashed, kind, found]))
      (.inr (by simp [hashed, ← hType, kind, found'])) (FixedBytes.ext digests)
    have outputs := writeTxOut_prefixFree.injective
      (first.outputsFit txOut (List.mem_of_getElem? found))
      (second.outputsFit txOut' (List.mem_of_getElem? found')) messages
    rw [found, found', outputs]
    simp [kind, sigHashNone, sigHashSingle]

theorem sameSpend_of_digest_eq (free : CollisionFree sha256 first second)
    (taproot : first.hasTaprootInput) (computed : first.digest sha256 = .ok value)
    (equality : first.digest sha256 = second.digest sha256) : SameSpend first second := by
  rw [equality] at computed
  have computed' := equality.trans computed
  rw [digest_eq] at computed computed'
  unfold sigMsg at computed computed'
  cases firstSingle : singleOutputBytes sha256 first.tx first.hType first.idx with
  | error error =>
    rw [firstSingle] at computed'
    cases computed'
  | ok single =>
    cases secondSingle : singleOutputBytes sha256 second.tx second.hType second.idx with
    | error error =>
      rw [secondSingle] at computed
      cases computed
    | ok single' =>
      rw [firstSingle] at computed'
      rw [secondSingle] at computed
      have digests := (Except.ok.inj computed').trans (Except.ok.inj computed).symm
      have tagged := free.injOn (.inl (by simp [hashed, sigMsg, firstSingle, Except.map,
          Except.toOption])) (.inr (by simp [hashed, sigMsg, secondSingle, Except.map,
          Except.toOption])) digests
      have fields := message_injective sha256 firstSingle secondSingle
        (List.append_cancel_left tagged)
      obtain ⟨prevOuts, -, -, sequences⟩ := fields.digests
      obtain ⟨amounts, scripts⟩ := fields.spent_eq free taproot
      exact {
        version := fields.version
        lockTime := fields.lockTime
        idx := fields.idx
        hType := fields.hType
        path := fields.path_eq free
        outPoints := prevOuts_injective (free.injOn
          (.inl (by simp [hashed])) (.inr (by simp [hashed])) prevOuts)
        sequences := sequences_injective (free.injOn
          (.inl (by simp [hashed])) (.inr (by simp [hashed])) sequences)
        amounts
        scripts
        outputs := fields.outputs_eq free firstSingle secondSingle }

/-- The same spend of outputs that are worth `shift` more. -/
def revalued (context : SpendContext) (shift : Int64) : SpendContext :=
  { context with
    prevOuts := fun outPoint =>
      { context.prevOuts outPoint with
        value := (context.prevOuts outPoint).value + shift } }

theorem revalued_hasTaprootInput (context : SpendContext) (shift : Int64) :
    (context.revalued shift).hasTaprootInput = context.hasTaprootInput :=
  rfl

theorem revalued_sigMsg (unset : context.hasTaprootInput = false) (shift : Int64) :
    (context.revalued shift).sigMsg sha256 = context.sigMsg sha256 := by
  have amounts : (context.revalued shift).amountsHash sha256 = context.amountsHash sha256 := by
    unfold amountsHash
    rw [revalued_hasTaprootInput, unset]
    rfl
  have scripts : (context.revalued shift).scriptsHash sha256 = context.scriptsHash sha256 := by
    unfold scriptsHash
    rw [revalued_hasTaprootInput, unset]
    rfl
  have inputs : (context.revalued shift).inputDigests sha256 = context.inputDigests sha256 := by
    unfold inputDigests
    rw [amounts, scripts]
    rfl
  have messages : (context.revalued shift).message sha256 = context.message sha256 := by
    funext single
    unfold message
    rw [inputs]
    rfl
  unfold sigMsg
  rw [messages]
  rfl

theorem revalued_hashed (unset : context.hasTaprootInput = false) (shift : Int64) :
    (context.revalued shift).hashed sha256 = context.hashed sha256 := by
  unfold hashed
  rw [revalued_sigMsg unset, revalued_hasTaprootInput, unset]
  rfl

theorem revalued_not_sameSpend (context : SpendContext) :
    ¬ SameSpend context (context.revalued 1) := by
  intro same
  have amounts := congrArg (·[context.idx]?) same.amounts
  obtain ⟨txIn, input⟩ : ∃ txIn, context.tx.txIn[context.idx]? = some txIn :=
    Option.isSome_iff_exists.mp (by simp [context.idx_lt])
  have input' : (context.revalued 1).tx.txIn[context.idx]? = some txIn := input
  simp only [spent, List.getElem?_map, input, input', Option.map_some, Option.some.injEq] at amounts
  have shifted : (context.prevOuts txIn.previousOutPoint).value =
      (context.prevOuts txIn.previousOutPoint).value + 1 := amounts
  exact absurd (Int64.left_eq_add.mp shifted) (by decide)

/-- A digest commits to the whole spend exactly when some input of the
transaction spends a taproot output. -/
theorem commitsToSpend_iff_hasTaprootInput {context : SpendContext}
    {value : Hash} (computed : context.digest sha256 = .ok value)
    (free : CollisionFree sha256 context context) :
    CommitsToSpend sha256 context ↔ context.hasTaprootInput := by
  constructor
  · intro commits
    by_contra missing
    have unset : context.hasTaprootInput = false := by simpa using missing
    apply context.revalued_not_sameSpend
    apply commits
    · refine ⟨?_, ?_⟩
      · rw [revalued_hashed unset]
        exact free.injOn
      · rw [revalued_hashed unset]
        exact free.ne_zero
    · rw [digest_eq, digest_eq, revalued_sigMsg unset]
  · intro taproot other free' equality
    exact sameSpend_of_digest_eq free' taproot computed equality

end SpendContext

namespace SpendExample

open SpendContext

def outPoint : OutPoint :=
  ⟨.fill 32 0x11, 0⟩

def tx : MsgTx where
  version := 1
  txIn := [⟨outPoint, [], [], 0xffffffff⟩]
  txOut := [⟨90000, [0x51, 0x20] ++ List.replicate 32 0x22⟩]
  lockTime := 0

def taprootScript : Bytes :=
  [0x51, 0x20] ++ List.replicate 32 0x44

def merkleRootScript : Bytes :=
  [0x52, 0x20] ++ List.replicate 32 0x44

def scriptPath : SpendPath :=
  .scriptPath ⟨none, 0xffffffff, .fill 32 0x33⟩

private theorem tx_outputs_fit : ∀ txOut ∈ tx.txOut, FitsLength txOut.pkScript := by
  simp [tx, FitsLength]

def taprootSpend : SpendContext where
  tx := tx
  prevOuts := fun _ => ⟨100000, taprootScript⟩
  idx := 0
  hType := sigHashDefault
  path := .keyPath none
  inputs_le := by decide
  idx_lt := by decide
  spends := fun _ _ => .inl (by decide)
  hType_mem := by decide
  outputsFit := tx_outputs_fit
  prevOutsFit := by simp [FitsLength, taprootScript]
  annexFits := by simp [SpendPath.annex]

def merkleRootSpend (amount : Int64) : SpendContext where
  tx := tx
  prevOuts := fun _ => ⟨amount, merkleRootScript⟩
  idx := 0
  hType := sigHashDefault
  path := scriptPath
  inputs_le := by decide
  idx_lt := by decide
  spends := fun _ _ => .inr ⟨rfl, _, rfl⟩
  hType_mem := by decide
  outputsFit := tx_outputs_fit
  prevOutsFit := by simp [FitsLength, merkleRootScript]
  annexFits := by simp [scriptPath, SpendPath.annex]

def taprootDigest : Hash :=
  .ofNat 32 0xa64aaf1e4b826c804cdc1e36d5e3ee4da1c1171d30daeba07701b48de6068c2c

def merkleRootDigest : Hash :=
  .ofNat 32 0x665dc4a34453c93f5ac6f70d9c682b81e8f8ffb5c8b6ee945bbd1f874ef35d37

/-- SHA-256 on what goes into the midstates of the example, and on the tag. -/
def partDigest (message : Bytes) : Hash :=
  if message = prevOutsMessage tx then
    .ofNat 32 0x075fce99a18c5a946572efe571afdbc79505361d2e43f8ed10b9b4c47f64538e
  else if message = sequenceMessage tx then
    .ofNat 32 0xad95131bc0b799c0b1af477fb14fcf26a6a9f76079e48bf090acb7e8367bfd0e
  else if message = outputsMessage tx then
    .ofNat 32 0x34557ba54aa7a9eb5b6c1c2c760ddd33271db265135ad7ce2bb3b48c9e41fe5e
  else if message = leBytes 8 100000 then
    .ofNat 32 0x184c0ede118ec8cd31f699524bae48a81ed01ded5f8d08f2f4ff4286b33b0270
  else if message = writeVarBytes taprootScript then
    .ofNat 32 0xeff0589f724b5d8e8a14609a8ab6901b7b2c845620988428b498f2a8fa9c4176
  else if message = tagTapSighash then
    .ofNat 32 0xf40a48df4b2a70c8b4924bf2654661ed3d95fd66a313eb87237597c628e4a031
  else .zero 32

def taggedSigMsg (context : SpendContext) : Option Bytes :=
  (context.sigMsg partDigest).toOption.map (taggedMessage partDigest tagTapSighash)

/-- SHA-256 on the messages of the example, with the tagged ones of the key path and of the
script path. -/
def sha256 (message : Bytes) : Hash :=
  if taggedSigMsg taprootSpend = some message then taprootDigest
  else if taggedSigMsg (merkleRootSpend 100000) = some message then merkleRootDigest
  else partDigest message

private theorem collisionFree_of_list {context other : SpendContext}
    (injective : ∀ message ∈ context.hashed sha256 ++ other.hashed sha256,
      ∀ message' ∈ context.hashed sha256 ++ other.hashed sha256,
        sha256 message = sha256 message' → message = message')
    (nonzero : ∀ message ∈ context.hashed sha256 ++ other.hashed sha256,
      sha256 message ≠ .zero 32) : CollisionFree sha256 context other := by
  constructor
  · intro message member message' member' equality
    exact injective message (List.mem_append.mpr member) message'
      (List.mem_append.mpr member') equality
  · intro message member
    exact nonzero message (List.mem_append.mpr member)

theorem taproot_spend_commits : taprootSpend.digest sha256 = .ok taprootDigest ∧
      CommitsToSpend sha256 taprootSpend := by
  have computed : taprootSpend.digest sha256 = .ok taprootDigest := by
    decide +kernel
  have free : CollisionFree sha256 taprootSpend taprootSpend :=
    collisionFree_of_list (by decide +kernel) (by decide +kernel)
  exact ⟨computed, (commitsToSpend_iff_hasTaprootInput computed free).mpr (by decide)⟩

/-- One signature is good for a spend of 100000 and for a spend of 5000000. -/
theorem merkle_root_digest_ignores_amount :
    CollisionFree sha256 (merkleRootSpend 100000) (merkleRootSpend 5000000) ∧
      (merkleRootSpend 100000).digest sha256 = .ok merkleRootDigest ∧
      (merkleRootSpend 5000000).digest sha256 = .ok merkleRootDigest ∧
      (merkleRootSpend 100000).spent.map TxOut.value ≠
        (merkleRootSpend 5000000).spent.map TxOut.value ∧
      ¬ CommitsToSpend sha256 (merkleRootSpend 100000) := by
  have free : CollisionFree sha256 (merkleRootSpend 100000) (merkleRootSpend 5000000) :=
    collisionFree_of_list (by decide +kernel) (by decide +kernel)
  have computed : (merkleRootSpend 100000).digest sha256 = .ok merkleRootDigest := by
    decide +kernel
  have computed' : (merkleRootSpend 5000000).digest sha256 = .ok merkleRootDigest := by
    decide +kernel
  have amounts : (merkleRootSpend 100000).spent.map TxOut.value ≠
      (merkleRootSpend 5000000).spent.map TxOut.value := by
    decide
  refine ⟨free, computed, computed', amounts, ?_⟩
  intro commits
  exact amounts (commits _ free (computed.trans computed'.symm)).amounts

end SpendExample

end ModelOS.TxScript
