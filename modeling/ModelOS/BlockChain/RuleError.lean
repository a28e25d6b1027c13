import Mathlib

namespace ModelOS.BlockChain

inductive ErrorCode
  | errDuplicateBlock
  | errBlockTooBig
  | errUnexpectedDifficulty
  | errTimeTooOld
  | errDifficultyTooLow
  | errBadMerkleRoot
  | errBadCheckpoint
  | errForkTooOld
  | errCheckpointTimeTooOld
  | errNoTransactions
  | errNoTxInputs
  | errNoTxOutputs
  | errTxTooBig
  | errScriptMalformed
  | errBadTxInput
  | errBadTxOutValue
  | errDuplicateTxInputs
  | errMissingTxOut
  | errUnfinalizedTx
  | errDuplicateTx
  | errOverwriteTx
  | errImmatureSpend
  | errSpendTooHigh
  | errBadFees
  | errFirstTxNotCoinbase
  | errMultipleCoinbases
  | errBadCoinbaseValue
  | errBadCoinbaseScriptLen
  | errBadCoinbaseHeight
  | errMissingCoinbaseHeight
  | errUnexpectedWitness
  | errInvalidWitnessCommitment
  | errWitnessCommitmentMismatch
  | errPreviousBlockUnknown
  | errInvalidAncestorBlock
  | errBadAuxPoW
  | errCertificateMissing
  | errCertificateTooLarge
  | errTimeTooNew
  | errHighHash
deriving DecidableEq, Repr

structure RuleError where
  errorCode : ErrorCode
  description : String
deriving DecidableEq, Repr

/-- An error is a broken rule or a failed assertion about the node's own state. -/
inductive ChainError
  | rule (error : RuleError)
  | assert (description : String)
deriving DecidableEq, Repr

def ruleError (code : ErrorCode) (description : String) : RuleError :=
  ⟨code, description⟩

end ModelOS.BlockChain
