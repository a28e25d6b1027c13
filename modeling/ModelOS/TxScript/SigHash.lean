import ModelOS.Data.Checked
import ModelOS.Wire.Common

namespace ModelOS.TxScript

open Data Wire

/-! Signature hashes of taproot and pay-to-merkle-root spends. -/

def witnessProgramOf (version : UInt8) (script : Bytes) : Bool :=
  script.length = 34 ∧ script.getD 0 0 = version ∧ script.getD 1 0 = 0x20

def isPayToTaproot (script : Bytes) : Bool :=
  witnessProgramOf 0x51 script

def isPayToMerkleRoot (script : Bytes) : Bool :=
  witnessProgramOf 0x52 script

abbrev SigHashType := UInt32

def sigHashDefault : SigHashType := 0x00

def sigHashAll : SigHashType := 0x01

def sigHashNone : SigHashType := 0x02

def sigHashSingle : SigHashType := 0x03

def sigHashAnyOneCanPay : SigHashType := 0x80

def sigHashMask : SigHashType := 0x1f

abbrev PrevOutputFetcher := OutPoint → Option TxOut

def nilDereference : String :=
  "runtime error: invalid memory address or nil pointer dereference"

def prevOutsMessage (tx : MsgTx) : Bytes :=
  tx.txIn.flatMap fun txIn => writeOutPoint txIn.previousOutPoint

def sequenceMessage (tx : MsgTx) : Bytes :=
  tx.txIn.flatMap fun txIn => leBytes 4 txIn.sequence.toNat

def outputsMessage (tx : MsgTx) : Bytes :=
  tx.txOut.flatMap writeTxOut

def inputAmountsMessage (prevOuts : List TxOut) : Bytes :=
  prevOuts.flatMap fun prevOut => leBytes 8 prevOut.value.toUInt64.toNat

def inputScriptsMessage (prevOuts : List TxOut) : Bytes :=
  prevOuts.flatMap fun prevOut => writeVarBytes prevOut.pkScript

def fetchPrevOutputs (fetcher : PrevOutputFetcher) (tx : MsgTx) : Except String (List TxOut) :=
  tx.txIn.mapM fun txIn => present (fetcher txIn.previousOutPoint) nilDereference

structure SegwitSigHashMidstate where
  hashPrevOutsV0 : Hash
  hashSequenceV0 : Hash
  hashOutputsV0 : Hash
deriving DecidableEq

structure TaprootSigHashMidState where
  hashPrevOutsV1 : Hash
  hashSequenceV1 : Hash
  hashOutputsV1 : Hash
  hashInputScriptsV1 : Hash
  hashInputAmountsV1 : Hash
deriving DecidableEq

structure TxSigHashes where
  segwit : SegwitSigHashMidstate
  taproot : TaprootSigHashMidState
deriving DecidableEq

def isNullOutPoint (outPoint : OutPoint) : Bool :=
  outPoint.index = 0xffffffff ∧ outPoint.hash = .zero 32

/-- Which midstates the inputs call for; the scan stops once both are needed. -/
def scanInputs (fetcher : PrevOutputFetcher) :
    List TxIn → (hasV0Inputs hasV1Inputs : Bool) → Except String (Bool × Bool)
  | [], hasV0Inputs, hasV1Inputs => .ok (hasV0Inputs, hasV1Inputs)
  | txIn :: rest, hasV0Inputs, hasV1Inputs =>
    if isNullOutPoint txIn.previousOutPoint then
      scanInputs fetcher rest true hasV1Inputs
    else
      match fetcher txIn.previousOutPoint with
      | none => .error nilDereference
      | some prevOut =>
        let taproot := isPayToTaproot prevOut.pkScript
        let hasV0Inputs := hasV0Inputs || !taproot
        let hasV1Inputs := hasV1Inputs || taproot
        if hasV0Inputs && hasV1Inputs then .ok (hasV0Inputs, hasV1Inputs)
        else scanInputs fetcher rest hasV0Inputs hasV1Inputs

section Hashing

variable (sha256 : Bytes → Hash)

/-- The digests of amounts and scripts; they stay zero when no input calls for
them. -/
def taprootInputHashes (fetcher : PrevOutputFetcher) (tx : MsgTx)
    (hasV1Inputs : Bool) : Except String (Hash × Hash) :=
  if hasV1Inputs then do
    let prevOuts ← fetchPrevOutputs fetcher tx
    return (sha256 (inputAmountsMessage prevOuts), sha256 (inputScriptsMessage prevOuts))
  else .ok (.zero 32, .zero 32)

def segwitMidstate (taproot : TaprootSigHashMidState) (hasV0Inputs : Bool) :
    SegwitSigHashMidstate :=
  if hasV0Inputs then {
    hashPrevOutsV0 := sha256 taproot.hashPrevOutsV1.bytes
    hashSequenceV0 := sha256 taproot.hashSequenceV1.bytes
    hashOutputsV0 := sha256 taproot.hashOutputsV1.bytes }
  else ⟨.zero 32, .zero 32, .zero 32⟩

def newTxSigHashes (tx : MsgTx) (fetcher : PrevOutputFetcher) : Except String TxSigHashes := do
  let (hasV0Inputs, hasV1Inputs) ← scanInputs fetcher tx.txIn false false
  let (amounts, scripts) ← taprootInputHashes sha256 fetcher tx hasV1Inputs
  let taproot : TaprootSigHashMidState := {
    hashPrevOutsV1 := sha256 (prevOutsMessage tx)
    hashSequenceV1 := sha256 (sequenceMessage tx)
    hashOutputsV1 := sha256 (outputsMessage tx)
    hashInputScriptsV1 := scripts
    hashInputAmountsV1 := amounts }
  return { segwit := segwitMidstate sha256 taproot hasV0Inputs, taproot }

inductive SigHashExtFlag
  | base
  | tapscript
deriving DecidableEq

def SigHashExtFlag.byte : SigHashExtFlag → UInt8
  | base => 0
  | tapscript => 1

structure TaprootSigHashOptions where
  extFlag : SigHashExtFlag := .base
  annexHash : Option Hash := none
  tapLeafHash : Bytes := []
  keyVersion : UInt8 := 0
  codeSepPos : UInt32 := 0
deriving DecidableEq

def withAnnex (annex : Bytes) (options : TaprootSigHashOptions) : TaprootSigHashOptions :=
  { options with annexHash := some (sha256 (writeVarBytes annex)) }

def withBaseTapscriptVersion (codeSepPos : UInt32) (tapLeafHash : Hash)
    (options : TaprootSigHashOptions) : TaprootSigHashOptions :=
  { options with
    extFlag := .tapscript
    tapLeafHash := tapLeafHash.bytes
    keyVersion := 0
    codeSepPos }

def TaprootSigHashOptions.writeDigestExtensions (options : TaprootSigHashOptions) : Bytes :=
  match options.extFlag with
  | .base => []
  | .tapscript => options.tapLeafHash ++ [options.keyVersion] ++
      leBytes 4 options.codeSepPos.toNat

def TaprootSigHashOptions.annexBytes (options : TaprootSigHashOptions) : Bytes :=
  match options.annexHash with
  | some annexHash => annexHash.bytes
  | none => []

def isValidTaprootSigHash (hType : SigHashType) : Bool :=
  hType ∈ [sigHashDefault, sigHashAll, sigHashNone, sigHashSingle, 0x81, 0x82, 0x83]

def spendType (options : TaprootSigHashOptions) : UInt8 :=
  options.extFlag.byte * 2 + if options.annexHash.isSome then 1 else 0

def isAnyOneCanPay (hType : SigHashType) : Bool :=
  hType &&& sigHashAnyOneCanPay = sigHashAnyOneCanPay

def midstateBytes (sigHashes : TxSigHashes) (hType : SigHashType) : Bytes :=
  if isAnyOneCanPay hType then []
  else sigHashes.taproot.hashPrevOutsV1.bytes ++ sigHashes.taproot.hashInputAmountsV1.bytes ++
    sigHashes.taproot.hashInputScriptsV1.bytes ++ sigHashes.taproot.hashSequenceV1.bytes

def outputsBytes (sigHashes : TxSigHashes) (hType : SigHashType) : Bytes :=
  if hType &&& sigHashSingle ≠ sigHashSingle ∧ hType &&& sigHashSingle ≠ sigHashNone then
    sigHashes.taproot.hashOutputsV1.bytes
  else []

def inputBytes (fetcher : PrevOutputFetcher) (hType : SigHashType)
    (txIn : TxIn) (idx : Nat) : Except String Bytes :=
  if isAnyOneCanPay hType then do
    let prevOut ← present (fetcher txIn.previousOutPoint) nilDereference
    return writeOutPoint txIn.previousOutPoint ++ writeTxOut prevOut ++
      leBytes 4 txIn.sequence.toNat
  else .ok (leBytes 4 (UInt32.ofNat idx).toNat)

def singleOutputBytes (tx : MsgTx) (hType : SigHashType) (idx : Nat) : Except String Bytes :=
  if hType &&& sigHashMask = sigHashSingle then do
    let txOut ← present tx.txOut[idx]? "invalid sighash type for input"
    return (sha256 (writeTxOut txOut)).bytes
  else .ok []

def taprootSigMsg (sigHashes : TxSigHashes) (hType : SigHashType) (tx : MsgTx)
    (idx : Nat) (fetcher : PrevOutputFetcher)
    (options : TaprootSigHashOptions) : Except String Bytes := do
  require (isValidTaprootSigHash hType) ("invalid taproot sighash type: " ++ toString hType)
  let txIn ← present tx.txIn[idx]?
    ("idx " ++ toString idx ++ " but " ++ toString tx.txIn.length ++ " txins")
  let input ← inputBytes fetcher hType txIn idx
  let single ← singleOutputBytes sha256 tx hType idx
  return [0x00] ++ [hType.toUInt8] ++ leBytes 4 tx.version.toUInt32.toNat ++
    leBytes 4 tx.lockTime.toNat ++ midstateBytes sigHashes hType ++
    outputsBytes sigHashes hType ++ [spendType options] ++ input ++
    options.annexBytes ++ single ++ options.writeDigestExtensions

def tagTapSighash : Bytes :=
  [0x54, 0x61, 0x70, 0x53, 0x69, 0x67, 0x68, 0x61, 0x73, 0x68]

def taggedMessage (tag message : Bytes) : Bytes :=
  (sha256 tag).bytes ++ (sha256 tag).bytes ++ message

def taggedHash (tag message : Bytes) : Hash :=
  sha256 (taggedMessage sha256 tag message)

def calcTaprootSignatureHashRaw (sigHashes : TxSigHashes)
    (hType : SigHashType) (tx : MsgTx) (idx : Nat)
    (fetcher : PrevOutputFetcher) (options : TaprootSigHashOptions) : Except String Hash := do
  let sigMsg ← taprootSigMsg sha256 sigHashes hType tx idx fetcher options
  return taggedHash sha256 tagTapSighash sigMsg

def annexOptions (annex : Option Bytes) (options : TaprootSigHashOptions) : TaprootSigHashOptions :=
  match annex with
  | some annex => withAnnex sha256 annex options
  | none => options

structure TapscriptExecutionCtx where
  annex : Option Bytes
  codeSepPos : UInt32
  tapLeafHash : Hash
deriving DecidableEq

inductive SpendPath
  | keyPath (annex : Option Bytes)
  | scriptPath (tapscriptCtx : TapscriptExecutionCtx)
deriving DecidableEq

def SpendPath.annex : SpendPath → Option Bytes
  | keyPath annex => annex
  | scriptPath tapscriptCtx => tapscriptCtx.annex

def SpendPath.options : SpendPath → TaprootSigHashOptions
  | keyPath annex => annexOptions sha256 annex {}
  | scriptPath tapscriptCtx => annexOptions sha256 tapscriptCtx.annex
      (withBaseTapscriptVersion tapscriptCtx.codeSepPos tapscriptCtx.tapLeafHash {})

def calcTapscriptSigHash (tapscriptCtx : TapscriptExecutionCtx)
    (hashCache : TxSigHashes) (hashType : SigHashType) (tx : MsgTx)
    (inputIndex : Nat) (prevOuts : PrevOutputFetcher) : Except String Hash :=
  calcTaprootSignatureHashRaw sha256 hashCache hashType tx inputIndex prevOuts
    ((SpendPath.scriptPath tapscriptCtx).options sha256)

def keySpendSigHash (annex : Option Bytes) (hashCache : TxSigHashes)
    (hashType : SigHashType) (tx : MsgTx) (inputIndex : Nat)
    (prevOuts : PrevOutputFetcher) : Except String Hash :=
  calcTaprootSignatureHashRaw sha256 hashCache hashType tx inputIndex prevOuts
    ((SpendPath.keyPath annex).options sha256)

def signatureDigest (path : SpendPath) (hashType : SigHashType) (tx : MsgTx)
    (inputIndex : Nat) (prevOuts : PrevOutputFetcher) : Except String Hash := do
  let hashCache ← newTxSigHashes sha256 tx prevOuts
  match path with
  | .keyPath annex =>
    keySpendSigHash sha256 annex hashCache hashType tx inputIndex prevOuts
  | .scriptPath tapscriptCtx =>
    calcTapscriptSigHash sha256 tapscriptCtx hashCache hashType tx inputIndex prevOuts

end Hashing

end ModelOS.TxScript
