import ModelOS.BlockChain.CompactBits
import ModelOS.BlockChain.SkipList

namespace ModelOS.BlockChain

open Data Wire

/-! A weighted average of the block times at first, an exponential schedule from an
anchor block later. -/

/-- What the difficulty rules ask of a header on its chain. -/
class HeaderCtx (Node : Type) where
  height : Node → Int32
  bits : Node → UInt32
  timestamp : Node → Int64
  parent : Node → Option Node
  relativeAncestorCtx : Node → (distance : Int32) → Option Node

def BlockNode.parent : BlockNode → Option BlockNode
  | genesis _ => none
  | child parent _ => some parent

instance : HeaderCtx BlockNode where
  height := BlockNode.height
  bits node := node.header.bits
  timestamp node := node.header.timestamp.toUInt64.toInt64
  parent := BlockNode.parent
  relativeAncestorCtx node distance := node.skipAncestor (node.height - distance)

/-- Durations are in whole seconds.  The calculation panics where the main network allows
blocks of the least difficulty. -/
structure DifficultyParams where
  powLimit : Int
  powLimitBits : UInt32
  poWNoRetargeting : Bool
  targetTimePerBlock : Int64
  wtemaHalfLife : Int64
  reduceMinDifficulty : Bool
  minDiffReductionTime : Int64
  isMainNet : Bool
  mainNet_reduces_nothing : ¬ (reduceMinDifficulty ∧ isMainNet)

inductive Network
  | mainNet
  | regTest
  | testNet
  | testNet2
  | simNet
  | sigNet
deriving DecidableEq

def Network.params : Network → DifficultyParams
  | mainNet => {
      powLimit := 2 ^ 208 - 1
      powLimitBits := 0x1b00ffff
      poWNoRetargeting := false
      targetTimePerBlock := 194
      wtemaHalfLife := 604800
      reduceMinDifficulty := false
      minDiffReductionTime := 0
      isMainNet := true
      mainNet_reduces_nothing := by decide }
  | regTest | simNet => {
      powLimit := 2 ^ 233 - 1
      powLimitBits := 0x1e010000
      poWNoRetargeting := true
      targetTimePerBlock := 194
      wtemaHalfLife := 604800
      reduceMinDifficulty := true
      minDiffReductionTime := 388
      isMainNet := false
      mainNet_reduces_nothing := by decide }
  | testNet | testNet2 => {
      powLimit := 2 ^ 208 - 1
      powLimitBits := 0x1b00ffff
      poWNoRetargeting := false
      targetTimePerBlock := 194
      wtemaHalfLife := 604800
      reduceMinDifficulty := true
      minDiffReductionTime := 14400
      isMainNet := false
      mainNet_reduces_nothing := by decide }
  | sigNet => {
      powLimit := 2 ^ 228 - 1
      powLimitBits := 0x1d0fffff
      poWNoRetargeting := false
      targetTimePerBlock := 194
      wtemaHalfLife := 604800
      reduceMinDifficulty := false
      minDiffReductionTime := 388
      isMainNet := false
      mainNet_reduces_nothing := by decide }

def Network.genesisBits : Network → UInt32
  | mainNet => 0x1b00ffff
  | regTest => 0x1e010000
  | testNet => 0x1b00ffff
  | testNet2 => 0x1b00ffff
  | simNet => 0x1e010000
  | sigNet => 0x1d0fffff

def colossusTargetBlockTime : Int64 := 194

def colossusASERTHalflife : Int64 := 96 * 194

def colossusAuxPowActivationBlock : Int32 := 15860

def colossusReanchorBlock : Int32 := 17500

def applyTargetFloor (target powLimit : Int) : Int :=
  if target ≤ 0 then 1 else if target > powLimit then powLimit else target

/-- Sixteen bits of it are behind the point. -/
def asertExponent (spacing timeDiff heightDiff halfLife : Int64) : Int64 :=
  ((timeDiff - spacing * (heightDiff + 1)) * 65536) / halfLife

def asertFrac (exponent : Int64) : UInt64 :=
  exponent.toUInt64.toUInt16.toUInt64

def asertCubic (frac : UInt64) : UInt64 :=
  let linear : UInt64 := 195766423245049 * frac
  let square : UInt64 := 971821376 * frac * frac
  let cube : UInt64 := 5127 * frac * frac * frac
  let half : UInt64 := (1 : UInt64) <<< (47 : UInt64)
  linear + square + cube + half

def asertFactor (frac : UInt64) : Int64 :=
  (65536 : Int64) + (asertCubic frac >>> 48).toInt64

def calcASERT (anchorTarget : Int) (spacing timeDiff heightDiff : Int64) (powLimit : Int)
    (halfLife : Int64) : Int :=
  let exponent := asertExponent spacing timeDiff heightDiff halfLife
  let factor := asertFactor (asertFrac exponent)
  let next := anchorTarget * factor.toInt
  let shifts := (exponent >>> 16) - 16
  let next :=
    if shifts < 0 then next >>> (-shifts).toUInt64.toNat
    else next <<< shifts.toUInt64.toNat
  applyTargetFloor next powLimit

section Required

variable {Node : Type} [HeaderCtx Node]

open HeaderCtx

def asertAnchorHeight (lastHeight : Int32) : Int32 :=
  if colossusReanchorBlock > 0 ∧ lastHeight ≥ colossusReanchorBlock then
    colossusReanchorBlock
  else colossusAuxPowActivationBlock

def asertAnchor (lastNode : Node) : Option Node :=
  let steps := height lastNode - asertAnchorHeight (height lastNode)
  if steps < 0 then none
  else if steps > 0 then relativeAncestorCtx lastNode steps
  else some lastNode

def asertAnchorTime (anchor : Node) : Int64 :=
  match parent anchor with
  | none => timestamp anchor
  | some anchorParent => timestamp anchorParent

def calcNextAsertTarget (lastNode : Node) (powLimit : Int) : Int :=
  match asertAnchor lastNode with
  | none => applyTargetFloor (compactToBig (bits lastNode)) powLimit
  | some anchor =>
    calcASERT (compactToBig (bits anchor)) colossusTargetBlockTime
      (timestamp lastNode - asertAnchorTime anchor)
      (height lastNode - height anchor).toInt64 powLimit colossusASERTHalflife

/-- The weighted average.  The quotient rounds down, also below zero. -/
def calcNextWtemaTarget (params : DifficultyParams) (oldTarget : Int) (t : Int64) : Int :=
  let adjustment := (t - params.targetTimePerBlock).toInt * oldTarget
  let newTarget := oldTarget + adjustment / params.wtemaHalfLife.toInt
  let newTarget := if newTarget > params.powLimit then params.powLimit else newTarget
  if newTarget ≤ 0 then 1 else newTarget

def calcNextRequiredDifficulty (params : DifficultyParams) (lastNode : Option Node)
    (newBlockTime : Int64) : UInt32 :=
  match lastNode with
  | none => params.powLimitBits
  | some lastNode =>
    if params.poWNoRetargeting then params.powLimitBits
    else if params.reduceMinDifficulty ∧
        newBlockTime > timestamp lastNode + params.minDiffReductionTime then
      params.powLimitBits
    else if height lastNode ≥ colossusAuxPowActivationBlock then
      bigToCompact (calcNextAsertTarget lastNode params.powLimit)
    else
      match parent lastNode with
      | none => bits lastNode
      | some parentNode =>
        bigToCompact (calcNextWtemaTarget params (compactToBig (bits lastNode))
          (timestamp lastNode - timestamp parentNode))

end Required

/-- The easiest difficulty that a block may state so many seconds after another one. -/
def calcEasiestDifficulty (params : DifficultyParams) (bits : UInt32) (duration : Int64) : UInt32 :=
  let clamped (newTarget : Int) :=
    bigToCompact (if newTarget > params.powLimit then params.powLimit else newTarget)
  if params.reduceMinDifficulty ∧ duration > params.minDiffReductionTime then
    params.powLimitBits
  else if duration > 0 then
    let periods := (duration + params.wtemaHalfLife - 1) / params.wtemaHalfLife
    if periods > 177 then params.powLimitBits
    else clamped ((compactToBig bits * 87 ^ periods.toUInt64.toNat) >>>
      (5 * periods).toUInt64.toNat)
  else clamped (compactToBig bits)

structure ChainCtx (Node : Type) where
  chainParams : DifficultyParams
  verifyCheckpoint : Int32 → Hash → Bool
  findPreviousCheckpoint : Except ChainError (Option Node)

section Check

variable {Node : Type} [HeaderCtx Node]

open HeaderCtx

def ChainCtx.checkBlockHeaderContext (sha256d : Bytes → Hash) (ctx : ChainCtx Node)
    (header : BlockHeader) (prevNode : Node) (flags : BehaviorFlags)
    (skipCheckpoint : Bool) : Except ChainError Unit := do
  let blockHeight := height prevNode + 1
  if flags.fastAdd then pure ()
  else
    let expectedDifficulty := calcNextRequiredDifficulty ctx.chainParams (some prevNode)
      header.timestamp.toUInt64.toInt64
    require (header.bits = expectedDifficulty) (.rule (ruleError .errUnexpectedDifficulty
        ("block difficulty of " ++ toString header.bits ++
          " is not the expected value of " ++ toString expectedDifficulty)))
    let prevTimestamp := (timestamp prevNode).toInt
    require (prevTimestamp + minTimestampDeltaSeconds ≤ header.timestamp.toNat)
      (.rule (ruleError .errTimeTooOld ("block timestamp of " ++ toString header.timestamp ++
          " must be at least " ++ toString minTimestampDeltaSeconds ++
          " seconds after previous block timestamp " ++ toString prevTimestamp)))
  if skipCheckpoint then pure ()
  else
    require (ctx.verifyCheckpoint blockHeight (header.blockHash sha256d))
      (.rule (ruleError .errBadCheckpoint ("block at height " ++ toString blockHeight ++
          " does not match checkpoint hash")))
    match ← ctx.findPreviousCheckpoint with
    | none => pure ()
    | some checkpointNode =>
      require (¬ blockHeight < height checkpointNode) (.rule (ruleError .errForkTooOld
          ("block at height " ++ toString blockHeight ++
            " forks the main chain before the previous checkpoint at height " ++
            toString (height checkpointNode))))

theorem ChainCtx.of_checkBlockHeaderContext {ctx : ChainCtx Node}
    (checked : flags.fastAdd = false)
    (passed : ctx.checkBlockHeaderContext sha256d header prevNode flags skipCheckpoint = .ok ()) :
    header.bits = calcNextRequiredDifficulty ctx.chainParams (some prevNode)
        header.timestamp.toUInt64.toInt64 ∧
      (timestamp prevNode).toInt + minTimestampDeltaSeconds ≤ header.timestamp.toNat := by
  rw [checkBlockHeaderContext, checked] at passed
  simp only [Bool.false_eq_true, if_false, bind_eq_ok, require_eq_ok] at passed
  obtain ⟨_, expected, _, later, _⟩ := passed
  exact ⟨expected, later⟩

theorem ChainCtx.checkBlockHeaderContext_skip {sha256d : Bytes → Hash} {ctx : ChainCtx Node}
    {header : BlockHeader} {prevNode : Node} {flags : BehaviorFlags}
    (checked : flags.fastAdd = false) :
    ctx.checkBlockHeaderContext sha256d header prevNode flags true = .ok () ↔
      header.bits = calcNextRequiredDifficulty ctx.chainParams (some prevNode)
          header.timestamp.toUInt64.toInt64 ∧
        (timestamp prevNode).toInt + minTimestampDeltaSeconds ≤ header.timestamp.toNat := by
  refine ⟨of_checkBlockHeaderContext checked, ?_⟩
  rintro ⟨expected, later⟩
  rw [checkBlockHeaderContext, checked]
  simp only [Bool.false_eq_true, if_false]
  rw [require_pos expected]
  change (require _ _ >>= fun _ => _) = _
  rw [require_pos later]
  rfl

end Check

def ChainRules.withDifficulty (rules : ChainRules) (params : DifficultyParams) : ChainRules :=
  { rules with
    calcEasiestDifficulty := fun bits duration =>
      BlockChain.calcEasiestDifficulty params bits (Int64.ofInt duration)
    calcNextRequiredDifficulty := fun node newBlockTime =>
      .ok (BlockChain.calcNextRequiredDifficulty params (some node)
        newBlockTime.toUInt64.toInt64) }

theorem toInt_unix (time : UInt32) : time.toUInt64.toInt64.toInt = time.toNat := by
  have small := time.toNat_lt
  rw [← Int64.toInt_toBitVec, BitVec.toInt_eq_toNat_cond]
  change (if 2 * time.toUInt64.toNat < 2 ^ 64 then (time.toUInt64.toNat : Int)
    else time.toUInt64.toNat - (2 ^ 64 : Nat)) = time.toNat
  rw [UInt32.toNat_toUInt64, if_pos (by omega)]

end ModelOS.BlockChain
