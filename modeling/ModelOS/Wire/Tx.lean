import ModelOS.Data.Bytes

namespace ModelOS.Wire

open Data

abbrev Hash := FixedBytes 32

structure OutPoint where
  hash : Hash
  index : UInt32
deriving DecidableEq

abbrev TxWitness := List Bytes

structure TxIn where
  previousOutPoint : OutPoint
  signatureScript : Bytes
  witness : TxWitness
  sequence : UInt32
deriving DecidableEq

structure TxOut where
  value : Int64
  pkScript : Bytes
deriving DecidableEq

structure MsgTx where
  version : Int32
  txIn : List TxIn
  txOut : List TxOut
  lockTime : UInt32
deriving DecidableEq

def txVersionInference : Int32 := 3

def txVersionInferenceProof : Int32 := 4

end ModelOS.Wire
