import Mathlib

namespace ModelOS.BlockChain

def compactToBig (compact : UInt32) : Int :=
  let mantissa := compact &&& 0x007fffff
  let isNegative := compact &&& 0x00800000 ≠ 0
  let exponent := (compact >>> 24).toNat
  let bn : Int :=
    if exponent ≤ 3 then (mantissa.toNat >>> (8 * (3 - exponent)) : Nat)
    else (mantissa.toNat <<< (8 * (exponent - 3)) : Nat)
  if isNegative then -bn else bn

def bigBytesLength (n : Int) : Nat :=
  if n = 0 then 0 else n.natAbs.log2 / 8 + 1

/-- A negative number shifts towards negative infinity, as big integers do. -/
def bigToCompact (n : Int) : UInt32 :=
  if n = 0 then 0
  else
    let exponent := bigBytesLength n
    let mantissa : UInt32 :=
      if exponent ≤ 3 then UInt32.ofNat (n.natAbs <<< (8 * (3 - exponent)))
      else UInt32.ofNat (n >>> (8 * (exponent - 3))).natAbs
    let tooLarge := mantissa &&& 0x00800000 ≠ 0
    let mantissa := if tooLarge then mantissa >>> 8 else mantissa
    let exponent := if tooLarge then exponent + 1 else exponent
    let compact := UInt32.ofNat (exponent <<< 24) ||| mantissa
    if n < 0 then compact ||| 0x00800000 else compact

example : bigToCompact (compactToBig 0x1d00ffff) = 0x1d00ffff := by decide

def calcWork (bits : UInt32) : Int :=
  let difficultyNum := compactToBig bits
  if difficultyNum ≤ 0 then 0 else 2 ^ 256 / (difficultyNum + 1)

end ModelOS.BlockChain
