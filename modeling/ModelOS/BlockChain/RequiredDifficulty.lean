import ModelOS.BlockChain.Difficulty
import ModelOS.Data.MachineInt

namespace ModelOS.BlockChain

open Data Wire

/-! The required difficulty is always one that a block can state and meet, and nothing
wraps on the way to it. -/

def Usable (params : DifficultyParams) (bits : UInt32) : Prop :=
  0 < compactToBig bits ∧ compactToBig bits ≤ params.powLimit ∧
    bigToCompact (compactToBig bits) = bits

instance (params : DifficultyParams) (bits : UInt32) : Decidable (Usable params bits) :=
  inferInstanceAs (Decidable (_ ∧ _ ∧ _))

section Clamped

variable {params : DifficultyParams} {target powLimit : Int}

theorem usable_bigToCompact (positive : 0 < target) (atMost : target ≤ params.powLimit)
    (small : params.powLimit < 2 ^ 256) : Usable params (bigToCompact target) := by
  obtain ⟨n, rfl⟩ := Int.eq_ofNat_of_zero_le (Int.le_of_lt positive)
  have positiveNat : 0 < n := by omega
  have smallNat : n < 2 ^ 256 := by omega
  have kept := compactToBig_bigToCompact positiveNat smallNat
  have roundedPositive := ByteFloat.rounded_pos positiveNat
  have roundedAtMost := @ByteFloat.rounded_le n
  refine ⟨?_, ?_, ?_⟩
  · omega
  · omega
  · rw [kept, bigToCompact_rounded positiveNat smallNat]

theorem applyTargetFloor_range (limit : 0 < powLimit) :
    0 < applyTargetFloor target powLimit ∧ applyTargetFloor target powLimit ≤ powLimit := by
  rw [applyTargetFloor]
  split
  · omega
  · split <;> omega

theorem calcASERT_range (limit : 0 < powLimit) (spacing timeDiff heightDiff halfLife : Int64) :
    0 < calcASERT target spacing timeDiff heightDiff powLimit halfLife ∧
      calcASERT target spacing timeDiff heightDiff powLimit halfLife ≤ powLimit :=
  applyTargetFloor_range limit

theorem calcNextAsertTarget_range [HeaderCtx Node] (limit : 0 < powLimit)
    (lastNode : Node) : 0 < calcNextAsertTarget lastNode powLimit ∧
      calcNextAsertTarget lastNode powLimit ≤ powLimit := by
  rw [calcNextAsertTarget]
  split
  · exact applyTargetFloor_range limit
  · exact calcASERT_range limit _ _ _ _

theorem calcNextWtemaTarget_range (limit : 0 < params.powLimit) (oldTarget : Int) (t : Int64) :
    0 < calcNextWtemaTarget params oldTarget t ∧
      calcNextWtemaTarget params oldTarget t ≤ params.powLimit := by
  rw [calcNextWtemaTarget]
  split
  · split <;> omega
  · split <;> omega

theorem usable_calcNextRequiredDifficulty [HeaderCtx Node] {lastNode : Node}
    (limit : 0 < params.powLimit) (small : params.powLimit < 2 ^ 256)
    (limitBits : Usable params params.powLimitBits)
    (root : HeaderCtx.parent lastNode = none → Usable params (HeaderCtx.bits lastNode))
    (newBlockTime : Int64) :
    Usable params (calcNextRequiredDifficulty params (some lastNode) newBlockTime) := by
  rw [calcNextRequiredDifficulty]
  split
  · exact limitBits
  · split
    · exact limitBits
    · split
      · obtain ⟨positive, atMost⟩ := calcNextAsertTarget_range limit lastNode
        exact usable_bigToCompact positive atMost small
      · split
        · next noParent => exact root noParent
        · obtain ⟨positive, atMost⟩ := calcNextWtemaTarget_range limit _ _
          exact usable_bigToCompact positive atMost small

end Clamped

theorem Network.params_usable (network : Network) :
    0 < network.params.powLimit ∧ network.params.powLimit < 2 ^ 256 ∧
      Usable network.params network.params.powLimitBits ∧
      Usable network.params network.genesisBits := by
  cases network <;> decide

structure CubicExact (frac : UInt64) : Prop where
  linear : (195766423245049 * frac).toNat = 195766423245049 * frac.toNat
  squareFirst : (971821376 * frac).toNat = 971821376 * frac.toNat
  square : (971821376 * frac * frac).toNat = 971821376 * frac.toNat * frac.toNat
  cubeFirst : (5127 * frac).toNat = 5127 * frac.toNat
  cubeSecond : (5127 * frac * frac).toNat = 5127 * frac.toNat * frac.toNat
  cube : (5127 * frac * frac * frac).toNat = 5127 * frac.toNat * frac.toNat * frac.toNat
  linearSquare : (195766423245049 * frac + 971821376 * frac * frac).toNat =
    195766423245049 * frac.toNat + 971821376 * frac.toNat * frac.toNat
  sum : (195766423245049 * frac + 971821376 * frac * frac + 5127 * frac * frac * frac).toNat =
    195766423245049 * frac.toNat + 971821376 * frac.toNat * frac.toNat +
      5127 * frac.toNat * frac.toNat * frac.toNat
  total : (asertCubic frac).toNat =
    195766423245049 * frac.toNat + 971821376 * frac.toNat * frac.toNat +
      5127 * frac.toNat * frac.toNat * frac.toNat + 2 ^ 47
  factor : (asertFactor frac).toInt = 65536 + ((asertCubic frac).toNat / 2 ^ 48 : Nat)

structure ExponentExact (spacing timeDiff heightDiff halfLife : Int64) : Prop where
  blocks : (heightDiff + 1).toInt = heightDiff.toInt + 1
  scheduled : (spacing * (heightDiff + 1)).toInt = spacing.toInt * (heightDiff.toInt + 1)
  deviation : (timeDiff - spacing * (heightDiff + 1)).toInt =
    timeDiff.toInt - spacing.toInt * (heightDiff.toInt + 1)
  scaled : ((timeDiff - spacing * (heightDiff + 1)) * 65536).toInt =
    (timeDiff.toInt - spacing.toInt * (heightDiff.toInt + 1)) * 65536
  exponent : (asertExponent spacing timeDiff heightDiff halfLife).toInt =
    ((timeDiff.toInt - spacing.toInt * (heightDiff.toInt + 1)) * 65536).tdiv halfLife.toInt
  shifts : ((asertExponent spacing timeDiff heightDiff halfLife >>> 16) - 16).toInt =
    (asertExponent spacing timeDiff heightDiff halfLife).toInt / 2 ^ 16 - 16
  negated : (-((asertExponent spacing timeDiff heightDiff halfLife >>> 16) - 16)).toInt =
    -((asertExponent spacing timeDiff heightDiff halfLife).toInt / 2 ^ 16 - 16)

structure NoWrap {Node : Type} [HeaderCtx Node] (params : DifficultyParams)
    (lastNode : Node) : Prop where
  allowMinTime : (HeaderCtx.timestamp lastNode + params.minDiffReductionTime).toInt =
    (HeaderCtx.timestamp lastNode).toInt + params.minDiffReductionTime.toInt
  blockTime : ∀ parentNode, HeaderCtx.parent lastNode = some parentNode →
    (HeaderCtx.timestamp lastNode - HeaderCtx.timestamp parentNode).toInt =
      (HeaderCtx.timestamp lastNode).toInt - (HeaderCtx.timestamp parentNode).toInt
  adjustment : ∀ parentNode, HeaderCtx.parent lastNode = some parentNode →
    (HeaderCtx.timestamp lastNode - HeaderCtx.timestamp parentNode -
        params.targetTimePerBlock).toInt =
      (HeaderCtx.timestamp lastNode).toInt - (HeaderCtx.timestamp parentNode).toInt -
        params.targetTimePerBlock.toInt
  timeDiff : ∀ anchor, asertAnchor lastNode = some anchor →
    (HeaderCtx.timestamp lastNode - asertAnchorTime anchor).toInt =
      (HeaderCtx.timestamp lastNode).toInt - (asertAnchorTime anchor).toInt
  heightDiff : ∀ anchor, asertAnchor lastNode = some anchor →
    (HeaderCtx.height lastNode - HeaderCtx.height anchor).toInt64.toInt =
      (HeaderCtx.height lastNode).toInt - (HeaderCtx.height anchor).toInt
  exponent : ∀ anchor, asertAnchor lastNode = some anchor → ExponentExact colossusTargetBlockTime
      (HeaderCtx.timestamp lastNode - asertAnchorTime anchor)
      (HeaderCtx.height lastNode - HeaderCtx.height anchor).toInt64 colossusASERTHalflife
  cubic : ∀ exponent, CubicExact (asertFrac exponent)

theorem toNat_asertFrac (exponent : Int64) : (asertFrac exponent).toNat < 2 ^ 16 := by
  rw [asertFrac, UInt16.toNat_toUInt64]
  exact UInt16.toNat_lt _

theorem toInt_asertFactor (frac : UInt64) :
    (asertFactor frac).toInt = 65536 + ((asertCubic frac).toNat / 2 ^ 48 : Nat) := by
  have shifted : (asertCubic frac >>> 48).toNat = (asertCubic frac).toNat / 2 ^ 48 := by
    rw [UInt64.toNat_shiftRight]
    exact Nat.shiftRight_eq_div_pow _ 48
  have bounded := (asertCubic frac).toNat_lt
  have quotient := toInt_toInt64_of_fits shifted (by omega)
  exact toInt_add_of_fits rfl quotient (by omega) (by omega)

theorem cubic_fits (small : frac < 2 ^ 16) :
    971821376 * frac < 2 ^ 64 ∧ 5127 * frac < 2 ^ 64 ∧ 5127 * frac * frac < 2 ^ 64 ∧
      195766423245049 * frac + 971821376 * frac * frac + 5127 * frac * frac * frac + 2 ^ 47 <
        2 ^ 64 := by
  have square : frac * frac ≤ 65535 * 65535 := Nat.mul_le_mul (by omega) (by omega)
  have cube : frac * frac * frac ≤ 65535 * 65535 * 65535 := Nat.mul_le_mul square (by omega)
  rw [Nat.mul_assoc 5127, Nat.mul_assoc 971821376, Nat.mul_assoc 5127]
  omega

theorem cubicExact (small : frac.toNat < 2 ^ 16) : CubicExact frac := by
  obtain ⟨squareFirstFits, cubeFirstFits, cubeSecondFits, totalFits⟩ := cubic_fits small
  have linearConstant : (195766423245049 : UInt64).toNat = 195766423245049 :=
    UInt64.toNat_ofNat_of_lt (by decide)
  have squareConstant : (971821376 : UInt64).toNat = 971821376 :=
    UInt64.toNat_ofNat_of_lt (by decide)
  have cubeConstant : (5127 : UInt64).toNat = 5127 := UInt64.toNat_ofNat_of_lt (by decide)
  have half : ((1 : UInt64) <<< (47 : UInt64)).toNat = 2 ^ 47 := by decide
  have sumFits := Nat.lt_of_le_of_lt (Nat.le_add_right _ _) totalFits
  have linearSquareFits := Nat.lt_of_le_of_lt (Nat.le_add_right _ _) sumFits
  have cubeFits := Nat.lt_of_le_of_lt (Nat.le_add_left _ _) sumFits
  have linearFits := Nat.lt_of_le_of_lt (Nat.le_add_right _ _) linearSquareFits
  have squareFits := Nat.lt_of_le_of_lt (Nat.le_add_left _ _) linearSquareFits
  have linear := toNat_mul_of_fits linearConstant rfl linearFits
  have squareFirst := toNat_mul_of_fits squareConstant rfl squareFirstFits
  have square := toNat_mul_of_fits squareFirst rfl squareFits
  have cubeFirst := toNat_mul_of_fits cubeConstant rfl cubeFirstFits
  have cubeSecond := toNat_mul_of_fits cubeFirst rfl cubeSecondFits
  have cube := toNat_mul_of_fits cubeSecond rfl cubeFits
  have linearSquare := toNat_add_of_fits linear square linearSquareFits
  have sum := toNat_add_of_fits linearSquare cube sumFits
  have total := toNat_add_of_fits sum half totalFits
  exact ⟨linear, squareFirst, square, cubeFirst, cubeSecond, cube, linearSquare, sum, total,
    toInt_asertFactor frac⟩

section Exponent

variable {spacing timeDiff heightDiff halfLife : Int64}

/-- What a longer spacing makes of the largest differences leaves 64 bits. -/
theorem exponentExact (positive : 0 < spacing.toInt) (short : spacing.toInt ≤ 65534)
    (timeLow : -2 ^ 32 < timeDiff.toInt) (timeHigh : timeDiff.toInt < 2 ^ 32)
    (heightLow : -2 ^ 31 ≤ heightDiff.toInt) (heightHigh : heightDiff.toInt < 2 ^ 31) :
    ExponentExact spacing timeDiff heightDiff halfLife := by
  have one : (1 : Int64).toInt = 1 := rfl
  have sixteen : (16 : Int64).toInt = 16 := rfl
  have scale : (65536 : Int64).toInt = 65536 := rfl
  have blocks := @toInt_add_of_fits heightDiff 1 _ _ rfl one (by omega) (by omega)
  have low : -(65534 * 2 ^ 31) ≤ spacing.toInt * (heightDiff.toInt + 1) := by
    nlinarith
  have high : spacing.toInt * (heightDiff.toInt + 1) ≤ 65534 * 2 ^ 31 := by
    nlinarith
  have scheduled := @toInt_mul_of_fits spacing _ _ _ rfl blocks (by omega) (by omega)
  have deviation := @toInt_sub_of_fits timeDiff _ _ _ rfl scheduled (by omega) (by omega)
  have scaled := toInt_mul_of_fits deviation scale (by omega) (by omega)
  have exponent : (asertExponent spacing timeDiff heightDiff halfLife).toInt =
      ((timeDiff.toInt - spacing.toInt * (heightDiff.toInt + 1)) * 65536).tdiv halfLife.toInt :=
    toInt_div_of_fits scaled rfl (by omega)
  generalize result : asertExponent spacing timeDiff heightDiff halfLife = word at exponent
  have wordLow := word.le_toInt
  have wordHigh := word.toInt_lt
  have shifts := toInt_sub_of_fits (@toInt_shiftRight_sixteen word) sixteen (by omega) (by omega)
  have negated := toInt_neg_of_fits shifts (by omega)
  subst result
  exact ⟨blocks, scheduled, deviation, scaled, exponent, shifts, negated⟩

end Exponent

theorem BlockNode.height_of_followSkips
    {height : Int32} (reached : followSkips steps node height = some found) :
    found.height = height := by
  induction steps generalizing node found height with
  | zero => cases reached
  | succ steps ih =>
    by_cases same : node.height = height
    · subst same
      rw [followSkips_self] at reached
      cases reached
      rfl
    · cases node with
      | genesis block =>
        rw [followSkips, if_neg same] at reached
        cases reached
      | child parent block =>
        rw [followSkips, if_neg same] at reached
        dsimp only at reached
        split at reached
        · exact ih reached
        · split at reached
          · exact ih reached
          · exact ih reached

theorem BlockNode.of_skipAncestor {node found : BlockNode} {height : Int32}
    (reached : node.skipAncestor height = some found) :
    found.height = height ∧ 0 ≤ height ∧ height ≤ node.height := by
  rw [skipAncestor] at reached
  split at reached
  · cases reached
  · next inside =>
    rw [not_or] at inside
    exact ⟨height_of_followSkips reached, Int32.not_lt.mp inside.1, Int32.not_lt.mp inside.2⟩

theorem asertAnchorHeight_range (height : Int32) :
    0 ≤ (asertAnchorHeight height).toInt ∧ (asertAnchorHeight height).toInt ≤ 17500 := by
  rw [asertAnchorHeight]
  split <;> decide

theorem height_asertAnchor {node anchor : BlockNode} (isAnchor : asertAnchor node = some anchor) :
    (node.height - anchor.height).toInt = node.height.toInt - anchor.height.toInt ∧
      0 ≤ node.height.toInt - anchor.height.toInt ∧
      node.height.toInt - anchor.height.toInt < 2 ^ 31 := by
  have high := node.height.toInt_lt
  obtain ⟨anchorLow, _⟩ := asertAnchorHeight_range node.height
  rw [asertAnchor] at isAnchor
  split at isAnchor
  · cases isAnchor
  · split at isAnchor
    · obtain ⟨atHeight, _, below⟩ := BlockNode.of_skipAncestor isAnchor
      have cancelled : node.height -
          (HeaderCtx.height node - asertAnchorHeight (HeaderCtx.height node)) =
          asertAnchorHeight node.height := by
        change node.height - (node.height - asertAnchorHeight node.height) = _
        grind
      rw [cancelled] at atHeight below
      rw [atHeight]
      rw [Int32.le_iff_toInt_le] at below
      refine ⟨?_, by omega, by omega⟩
      rw [Int32.toInt_sub]
      apply Int.bmod_eq_of_le <;> omega
    · cases isAnchor
      rw [Int32.sub_self]
      refine ⟨?_, by omega, by omega⟩
      rw [Int.sub_self]
      rfl

theorem noWrap (network : Network) (node : BlockNode) : NoWrap network.params node := by
  have time : ∀ node : BlockNode, 0 ≤ (HeaderCtx.timestamp node).toInt ∧
      (HeaderCtx.timestamp node).toInt < 2 ^ 32 := by
    intro node
    have small := node.header.timestamp.toNat_lt
    have unix : (HeaderCtx.timestamp node).toInt = node.header.timestamp.toNat := toInt_unix _
    omega
  have anchorTime : ∀ anchor : BlockNode, 0 ≤ (asertAnchorTime anchor).toInt ∧
      (asertAnchorTime anchor).toInt < 2 ^ 32 := by
    intro anchor
    rw [asertAnchorTime]
    split
    · exact time _
    · exact time _
  have difference : ∀ first second : Int64, 0 ≤ first.toInt ∧ first.toInt < 2 ^ 32 →
      0 ≤ second.toInt ∧ second.toInt < 2 ^ 32 →
      (first - second).toInt = first.toInt - second.toInt := by
    intro first second firstRange secondRange
    exact toInt_sub_of_fits rfl rfl (by omega) (by omega)
  have reduction : 0 ≤ network.params.minDiffReductionTime.toInt ∧
      network.params.minDiffReductionTime.toInt ≤ 14400 := by
    cases network <;> decide
  have spacing : network.params.targetTimePerBlock.toInt = 194 := by
    cases network <;> rfl
  have here := time node
  refine ⟨?_, ?_, ?_, ?_, ?_, ?_, ?_⟩
  · exact toInt_add_of_fits rfl rfl (by omega) (by omega)
  · intro parentNode _
    exact difference _ _ here (time parentNode)
  · intro parentNode _
    have parentTime := time parentNode
    have exactly := difference _ _ here parentTime
    exact toInt_sub_of_fits exactly rfl (by omega) (by omega)
  · intro anchor _
    exact difference _ _ here (anchorTime anchor)
  · intro anchor isAnchor
    rw [Int32.toInt_toInt64]
    exact (height_asertAnchor isAnchor).1
  · intro anchor isAnchor
    have anchorRange := anchorTime anchor
    have exactly := difference _ _ here anchorRange
    obtain ⟨heights, low, high⟩ := height_asertAnchor isAnchor
    have heightDiff : (HeaderCtx.height node - HeaderCtx.height anchor).toInt64.toInt =
        node.height.toInt - anchor.height.toInt := by
      rw [Int32.toInt_toInt64]
      exact heights
    have spacing : colossusTargetBlockTime.toInt = 194 := rfl
    apply exponentExact <;> omega
  · intro exponent
    exact cubicExact (toNat_asertFrac exponent)

def shiftBy (value shifts : Int) : Int :=
  if shifts < 0 then value >>> (-shifts).toNat else value <<< shifts.toNat

theorem toNat_asertFrac_eq (exponent : Int64) :
    ((asertFrac exponent).toNat : Int) = exponent.toInt % 65536 := by
  have word := @toInt_eq_of_toUInt64 exponent
  rw [asertFrac, UInt16.toNat_toUInt64, UInt64.toNat_toUInt16]
  split at word <;> omega

theorem calcASERT_eq
    (exactly : ExponentExact spacing timeDiff heightDiff halfLife) :
    calcASERT anchorTarget spacing timeDiff heightDiff powLimit halfLife =
      applyTargetFloor (shiftBy (anchorTarget * (asertFactor (asertFrac
        (asertExponent spacing timeDiff heightDiff halfLife))).toInt)
        ((asertExponent spacing timeDiff heightDiff halfLife).toInt / 2 ^ 16 - 16)) powLimit := by
  have zero : (0 : Int64).toInt = 0 := rfl
  have shifts := exactly.shifts
  have negated := exactly.negated
  have sign : (asertExponent spacing timeDiff heightDiff halfLife >>> 16) - 16 < 0 ↔
      (asertExponent spacing timeDiff heightDiff halfLife).toInt / 2 ^ 16 - 16 < 0 := by
    rw [Int64.lt_iff_toInt_lt, shifts, zero]
  unfold calcASERT shiftBy
  dsimp only
  by_cases right : (asertExponent spacing timeDiff heightDiff halfLife).toInt / 2 ^ 16 - 16 < 0
  · rw [← toNat_toUInt64_of_nonneg (by omega)] at negated
    rw [if_pos right, if_pos (sign.mpr right), ← negated, Int.toNat_natCast]
  · rw [← toNat_toUInt64_of_nonneg (by omega)] at shifts
    rw [if_neg right, if_neg (mt sign.mp right), ← shifts, Int.toNat_natCast]

/-! The same calculation on unbounded integers. -/

def unboundedASERT (anchorTarget spacing timeDiff heightDiff powLimit halfLife : Int) : Int :=
  let exponent := ((timeDiff - spacing * (heightDiff + 1)) * 65536).tdiv halfLife
  let frac := exponent % 65536
  let cubic := 195766423245049 * frac + 971821376 * frac * frac + 5127 * frac * frac * frac + 2 ^ 47
  applyTargetFloor (shiftBy (anchorTarget * (65536 + cubic / 2 ^ 48)) (exponent / 2 ^ 16 - 16))
    powLimit

def unboundedWtemaTarget (params : DifficultyParams) (oldTarget t : Int) : Int :=
  let adjustment := (t - params.targetTimePerBlock.toInt) * oldTarget
  let newTarget := oldTarget + adjustment / params.wtemaHalfLife.toInt
  let newTarget := if newTarget > params.powLimit then params.powLimit else newTarget
  if newTarget ≤ 0 then 1 else newTarget

theorem calcASERT_eq_unbounded (exactly : ExponentExact spacing timeDiff heightDiff halfLife) :
    calcASERT anchorTarget spacing timeDiff heightDiff powLimit halfLife =
      unboundedASERT anchorTarget spacing.toInt timeDiff.toInt heightDiff.toInt powLimit
        halfLife.toInt := by
  have total := (cubicExact (toNat_asertFrac (asertExponent spacing timeDiff heightDiff
    halfLife))).total
  have frac := toNat_asertFrac_eq (asertExponent spacing timeDiff heightDiff halfLife)
  rw [calcASERT_eq exactly, toInt_asertFactor, total, unboundedASERT, ← exactly.exponent, ← frac]
  push_cast
  rfl

section Unbounded

variable {Node : Type} [HeaderCtx Node]

open HeaderCtx

def unboundedAsertTarget (lastNode : Node) (powLimit : Int) : Int :=
  match asertAnchor lastNode with
  | none => applyTargetFloor (compactToBig (bits lastNode)) powLimit
  | some anchor =>
    unboundedASERT (compactToBig (bits anchor)) colossusTargetBlockTime.toInt
      ((timestamp lastNode).toInt - (asertAnchorTime anchor).toInt)
      ((height lastNode).toInt - (height anchor).toInt) powLimit colossusASERTHalflife.toInt

def unboundedDifficulty (params : DifficultyParams) (lastNode : Node) (newBlockTime : Int) :
    UInt32 :=
  if params.poWNoRetargeting then params.powLimitBits
  else if params.reduceMinDifficulty ∧
      newBlockTime > (timestamp lastNode).toInt + params.minDiffReductionTime.toInt then
    params.powLimitBits
  else if height lastNode ≥ colossusAuxPowActivationBlock then
    bigToCompact (unboundedAsertTarget lastNode params.powLimit)
  else
    match parent lastNode with
    | none => bits lastNode
    | some parentNode =>
      bigToCompact (unboundedWtemaTarget params (compactToBig (bits lastNode))
        ((timestamp lastNode).toInt - (timestamp parentNode).toInt))

theorem NoWrap.calcNextRequiredDifficulty_eq {params : DifficultyParams} {lastNode : Node}
    (exactly : NoWrap params lastNode) (newBlockTime : Int64) :
    calcNextRequiredDifficulty params (some lastNode) newBlockTime =
      unboundedDifficulty params lastNode newBlockTime.toInt := by
  have asert : calcNextAsertTarget lastNode params.powLimit =
      unboundedAsertTarget lastNode params.powLimit := by
    unfold calcNextAsertTarget unboundedAsertTarget
    cases isAnchor : asertAnchor lastNode with
    | none => rfl
    | some anchor =>
      dsimp only
      rw [calcASERT_eq_unbounded (exactly.exponent anchor isAnchor),
        exactly.timeDiff anchor isAnchor, exactly.heightDiff anchor isAnchor]
  unfold calcNextRequiredDifficulty unboundedDifficulty
  simp only [asert, gt_iff_lt, Int64.lt_iff_toInt_lt, exactly.allowMinTime]
  cases isParent : parent lastNode with
  | none => rfl
  | some parentNode =>
    dsimp only
    unfold calcNextWtemaTarget unboundedWtemaTarget
    rw [exactly.adjustment parentNode isParent]

end Unbounded

/-- A chain from the genesis block in which each header passes the check on its parent. -/
inductive HeaderChain (network : Network) (sha256d : Bytes → Hash) : BlockNode → Prop
  | genesis {block : MsgBlock} (bits : block.msgHeader.blockHeader.bits = network.genesisBits) :
      HeaderChain network sha256d (.genesis block)
  | child {parent : BlockNode} {block : MsgBlock} {ctx : ChainCtx BlockNode}
      {flags : BehaviorFlags} {skipCheckpoint : Bool} (chain : HeaderChain network sha256d parent)
      (params : ctx.chainParams = network.params) (checked : flags.fastAdd = false)
      (passed : ctx.checkBlockHeaderContext sha256d block.msgHeader.blockHeader parent flags
        skipCheckpoint = .ok ()) : HeaderChain network sha256d (.child parent block)

/-- On every such chain the next difficulty is a positive target within the limit in its own
compact form; nothing wraps on the way to it, so that it is the one that unbounded integers
give. -/
theorem requiredDifficulty_usable {network : Network} {sha256d : Bytes → Hash}
    {tip : BlockNode} (chain : HeaderChain network sha256d tip) (newBlockTime : Int64) :
    Usable network.params (calcNextRequiredDifficulty network.params (some tip) newBlockTime) ∧
      NoWrap network.params tip ∧
      calcNextRequiredDifficulty network.params (some tip) newBlockTime =
        unboundedDifficulty network.params tip newBlockTime.toInt := by
  obtain ⟨limit, small, limitBits, genesisBits⟩ := network.params_usable
  have exactly := noWrap network tip
  refine ⟨?_, exactly, exactly.calcNextRequiredDifficulty_eq newBlockTime⟩
  apply usable_calcNextRequiredDifficulty limit small limitBits
  intro noParent
  cases chain with
  | genesis bits =>
    change Usable network.params (BlockNode.genesis _).header.bits
    rw [BlockNode.header, BlockNode.block, bits]
    exact genesisBits
  | child chain params checked passed => cases noParent

namespace RequiredDifficultyExample

def block (timestamp bits : UInt32) : MsgBlock where
  msgHeader :=
    { certificate := none
      blockHeader :=
        { version := 1, prevBlock := .zero 32, merkleRoot := .zero 32, timestamp, bits,
          proofCommitment := .zero 32 } }
  auxPow := none
  transactions := []

def ctx : ChainCtx BlockNode where
  chainParams := Network.mainNet.params
  verifyCheckpoint _ _ := true
  findPreviousCheckpoint := .ok none

def extend (node : BlockNode) (timestamp : Nat) : BlockNode :=
  .child node (block (UInt32.ofNat timestamp)
    (calcNextRequiredDifficulty Network.mainNet.params (some node)
      (UInt32.ofNat timestamp).toUInt64.toInt64))

variable {node : BlockNode} {timestamp : Nat} {sha256d : Bytes → Hash}

theorem headerChain_extend (chain : HeaderChain .mainNet sha256d node)
    (small : timestamp < 2 ^ 32) (later : node.header.timestamp.toNat < timestamp) :
    HeaderChain .mainNet sha256d (extend node timestamp) := by
  have unix : (HeaderCtx.timestamp node).toInt = node.header.timestamp.toNat := toInt_unix _
  have stated : (UInt32.ofNat timestamp).toNat = timestamp := UInt32.toNat_ofNat_of_lt' small
  have order : (HeaderCtx.timestamp node).toInt + (minTimestampDeltaSeconds : Nat) ≤
      ((UInt32.ofNat timestamp).toNat : Int) := by
    rw [unix, stated, minTimestampDeltaSeconds]
    omega
  have passed := (@ChainCtx.checkBlockHeaderContext_skip _ _ sha256d ctx
    (extend node timestamp).header node .none rfl).mpr ⟨rfl, order⟩
  exact .child chain rfl rfl passed

@[simp] theorem timestamp_extend (small : timestamp < 2 ^ 32) :
    (extend node timestamp).header.timestamp.toNat = timestamp :=
  UInt32.toNat_ofNat_of_lt' small

theorem bits_extend : (extend node timestamp).header.bits =
      calcNextRequiredDifficulty Network.mainNet.params (some node)
        (UInt32.ofNat timestamp).toUInt64.toInt64 :=
  rfl

theorem length_extend : (extend node timestamp).ancestors.length = node.ancestors.length + 1 :=
  rfl

def steady : Nat → BlockNode
  | 0 => .genesis (block 1780909200 0x1b00ffff)
  | number + 1 => extend (steady number) (1780909200 + 194 * (number + 1))

theorem length_steady (number : Nat) : (steady number).ancestors.length = number + 1 := by
  induction number with
  | zero => rfl
  | succ number ih => rw [steady, length_extend, ih]

theorem timestamp_steady (below : number ≤ 15860) :
    (steady number).header.timestamp.toNat = 1780909200 + 194 * number := by
  cases number with
  | zero => rfl
  | succ number => exact timestamp_extend (by omega)

theorem headerChain_steady (below : number ≤ 15860) :
    HeaderChain .mainNet sha256d (steady number) := by
  induction number with
  | zero => exact .genesis rfl
  | succ number ih =>
    apply headerChain_extend (ih (by omega)) (by omega)
    rw [timestamp_steady (by omega)]
    omega

end RequiredDifficultyExample

open RequiredDifficultyExample in
/-- At the start of the exponential schedule, after 15860 blocks on time. -/
theorem requiredDifficulty_usable_steady :
    colossusAuxPowActivationBlock ≤ (steady 15860).height ∧
    Usable Network.mainNet.params
        (calcNextRequiredDifficulty Network.mainNet.params (some (steady 15860)) 1783986041) ∧
      NoWrap Network.mainNet.params (steady 15860) := by
  have chain := @headerChain_steady (fun _ => .zero 32) 15860 (Nat.le_refl _)
  obtain ⟨usable, exactly, _⟩ := requiredDifficulty_usable chain 1783986041
  refine ⟨?_, usable, exactly⟩
  rw [Int32.le_iff_toInt_le, BlockNode.toInt_height (by rw [length_steady]; decide), length_steady]
  decide

end ModelOS.BlockChain
