import ModelOS.Wire.Tx

namespace ModelOS.Wire

open Data

def inferenceProofWindowBlocks : Int32 := 5

structure InferenceResultProof where
  commitmentHash : FixedBytes 32
  resultHash : FixedBytes 32
  workerAddress : FixedBytes 34
  blockHash : Hash
  signature : FixedBytes 64
  coordinatorSignature : FixedBytes 64
deriving DecidableEq

def inferenceProofSize : Nat := 258

def InferenceResultProof.serialise (proof : InferenceResultProof) : Bytes :=
  proof.commitmentHash.bytes ++ proof.resultHash.bytes ++
    proof.workerAddress.bytes ++ proof.blockHash.bytes ++
    proof.signature.bytes ++ proof.coordinatorSignature.bytes

/-- `OP_RETURN` and `OP_PUSHDATA2` with the length 258 in little endian. -/
def inferenceProofOpReturnPrefix : Bytes := [0x6a, 0x4d, 0x02, 0x01]

def parseInferenceProofOpReturn (pkScript : Bytes) : Option InferenceResultProof :=
  if pkScript.length ≠ 4 + inferenceProofSize then none
  else if pkScript.getD 0 0 ≠ 0x6a then none
  else if pkScript.getD 1 0 ≠ 0x4d then none
  else if leNat (slice pkScript 2 2) ≠ inferenceProofSize then none
  else
    let data := pkScript.drop 4
    if data.length ≠ inferenceProofSize then none
    else some {
      commitmentHash := .copy 32 (slice data 0 32)
      resultHash := .copy 32 (slice data 32 32)
      workerAddress := .copy 34 (slice data 64 34)
      blockHash := .copy 32 (slice data 98 32)
      signature := .copy 64 (slice data 130 64)
      coordinatorSignature := .copy 64 (slice data 194 64) }

/-- Parse the first output that carries a result proof. -/
def extractInferenceResultProof (tx : MsgTx) : Except String InferenceResultProof :=
  if tx.version ≠ txVersionInferenceProof then
    .error ("not an inference_proof_tx: version " ++ toString tx.version)
  else
    match tx.txOut.findSome? fun out =>
        parseInferenceProofOpReturn out.pkScript with
    | some proof => .ok proof
    | none => .error "no valid InferenceResultProof OP_RETURN output found"

def inferenceProofOutputs (tx : MsgTx) : List TxOut :=
  tx.txOut.filter fun out => (parseInferenceProofOpReturn out.pkScript).isSome

def remainingOutputs (tx : MsgTx) : List TxOut :=
  tx.txOut.filter fun out => (parseInferenceProofOpReturn out.pkScript).isNone

theorem parseInferenceProofOpReturn_serialise (proof : InferenceResultProof) :
    parseInferenceProofOpReturn (inferenceProofOpReturnPrefix ++ proof.serialise) = some proof := by
  obtain ⟨⟨commitmentHash, commitmentLength⟩, ⟨resultHash, resultLength⟩,
    ⟨workerAddress, workerLength⟩, ⟨blockHash, blockLength⟩,
    ⟨signature, signatureLength⟩, ⟨coordinator, coordinatorLength⟩⟩ := proof
  simp [parseInferenceProofOpReturn, inferenceProofOpReturnPrefix,
    InferenceResultProof.serialise, inferenceProofSize, slice, leNat,
    List.drop_append, List.take_append, FixedBytes.copy,
    List.drop_eq_nil_of_le, List.take_of_length_le, *]

private theorem findSome?_eq_filter (outputs : List TxOut) :
    (outputs.findSome? fun out => parseInferenceProofOpReturn out.pkScript) =
      (outputs.filter fun out =>
        (parseInferenceProofOpReturn out.pkScript).isSome).findSome?
          fun out => parseInferenceProofOpReturn out.pkScript := by
  induction outputs with
  | nil => rfl
  | cons out rest ih =>
    cases parsed : parseInferenceProofOpReturn out.pkScript with
    | none => simp [parsed, ih]
    | some proof => simp [parsed]

theorem extractInferenceResultProof_congr
    (version : second.version = first.version)
    (outputs : inferenceProofOutputs second = inferenceProofOutputs first) :
    extractInferenceResultProof second = extractInferenceResultProof first := by
  unfold extractInferenceResultProof
  rw [findSome?_eq_filter second.txOut, findSome?_eq_filter first.txOut, version]
  unfold inferenceProofOutputs at outputs
  rw [outputs]

end ModelOS.Wire
