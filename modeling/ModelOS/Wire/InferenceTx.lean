import ModelOS.Wire.InferenceProof

namespace ModelOS.Wire

open Data

def txVersionInferenceGo : Int32 := 5

structure InferencePayload where
  promptHash : FixedBytes 32
  resultAddress : FixedBytes 64
  modelVersion : UInt16
  maxTokens : UInt16
  nonce : UInt64
  coordinatorPubKey : FixedBytes 32
deriving DecidableEq

def inferencePayloadVersion : UInt8 := 2

def inferencePayloadSize : Nat := 141

def maxInferenceTokens : UInt16 := 65535

def parseInferenceOpReturn (pkScript : Bytes) : Option InferencePayload :=
  if pkScript.length ≠ 3 + inferencePayloadSize then none
  else if pkScript.getD 0 0 ≠ 0x6a then none
  else if pkScript.getD 1 0 ≠ 0x4c then none
  else if (pkScript.getD 2 0).toNat ≠ inferencePayloadSize then none
  else
    let data := pkScript.drop 3
    if data.getD 0 0 ≠ inferencePayloadVersion then none
    else some {
      promptHash := .copy 32 (slice data 1 32)
      resultAddress := .copy 64 (slice data 33 64)
      modelVersion := UInt16.ofNat (leNat (slice data 97 2))
      maxTokens := UInt16.ofNat (leNat (slice data 99 2))
      nonce := UInt64.ofNat (leNat (slice data 101 8))
      coordinatorPubKey := .copy 32 (slice data 109 32) }

def extractInferencePayload (tx : MsgTx) : Except String InferencePayload :=
  if tx.version ≠ txVersionInference then
    .error ("not an inference_tx: version " ++ toString tx.version)
  else
    match tx.txOut.findSome? fun out => parseInferenceOpReturn out.pkScript with
    | some payload => .ok payload
    | none => .error "no valid InferencePayload OP_RETURN output found"

def isInferenceProofTx (tx : MsgTx) : Bool :=
  tx.version = txVersionInferenceProof ∧ 1 ≤ tx.txOut.length ∧
    tx.txOut.any fun out => (parseInferenceProofOpReturn out.pkScript).isSome

structure InferenceGoPayload where
  amount : UInt64
  destination : FixedBytes 32
  signature : FixedBytes 64
deriving DecidableEq

namespace InferenceGoPayload

/-- A zero destination stands for the authorised key. -/
def hasDestination (payload : InferenceGoPayload) : Bool :=
  payload.destination ≠ .zero 32

def version : UInt8 := 1

def size : Nat := 1 + 8 + 32 + 64

def serialise (payload : InferenceGoPayload) : Bytes :=
  [version] ++ leBytes 8 payload.amount.toNat ++ payload.destination.bytes ++
    payload.signature.bytes

def signedBytes (payload : InferenceGoPayload) : Bytes :=
  [version] ++ leBytes 8 payload.amount.toNat ++ payload.destination.bytes

def deserialise (data : Bytes) : Option InferenceGoPayload :=
  if data.getD 0 0 ≠ version then none
  else some {
    amount := UInt64.ofNat (leNat (slice data 1 8))
    destination := .copy 32 (slice data 9 32)
    signature := .copy 64 (slice data 41 64) }

end InferenceGoPayload

/-- `OP_RETURN` and `OP_PUSHDATA1` with the length 105. -/
def inferenceGoOpReturnPrefix : Bytes := [0x6a, 0x4c, 0x69]

/-- Only the exact canonical framing is a payload. -/
def parseInferenceGoOpReturn (pkScript : Bytes) : Option InferenceGoPayload :=
  if pkScript.length ≠ inferenceGoOpReturnPrefix.length + InferenceGoPayload.size then none
  else if pkScript.take inferenceGoOpReturnPrefix.length ≠ inferenceGoOpReturnPrefix then none
  else InferenceGoPayload.deserialise (pkScript.drop inferenceGoOpReturnPrefix.length)

def extractInferenceGoPayload (tx : MsgTx) : Except String InferenceGoPayload :=
  if tx.version ≠ txVersionInferenceGo then
    .error ("not an inferencego_tx: version " ++ toString tx.version)
  else
    match tx.txOut.findSome? fun out => parseInferenceGoOpReturn out.pkScript with
    | some payload => .ok payload
    | none => .error "no valid InferenceGoPayload OP_RETURN output found"

def countInferenceGoPayloadOutputs (tx : MsgTx) : Nat :=
  tx.txOut.countP fun out => (parseInferenceGoOpReturn out.pkScript).isSome

/-- `OP_1` with the output key. -/
def inferenceGoP2TRScript (outputKey : FixedBytes 32) : Bytes :=
  [0x51, 0x20] ++ outputKey.bytes

theorem parseInferenceGoOpReturn_serialise (payload : InferenceGoPayload) : parseInferenceGoOpReturn
      (inferenceGoOpReturnPrefix ++ payload.serialise) = some payload := by
  obtain ⟨amount, ⟨destination, destinationLength⟩, ⟨signature, signatureLength⟩⟩ := payload
  simp [parseInferenceGoOpReturn, inferenceGoOpReturnPrefix,
    InferenceGoPayload.serialise, InferenceGoPayload.deserialise,
    InferenceGoPayload.size, InferenceGoPayload.version, slice, List.drop_append,
    FixedBytes.copy, List.drop_eq_nil_of_le, List.take_of_length_le, *]

end ModelOS.Wire
