import ModelOS.BlockChain.RequiredDifficulty

namespace ModelOS.BlockChain

open Data Wire

/-! The bound that a block is held to after a checkpoint, against the difficulty that
the chain requires of it. -/

section Chain

variable {network : Network} {sha256d : Bytes → Hash} {parent : BlockNode} {block : MsgBlock}

theorem HeaderChain.ofChild (chain : HeaderChain network sha256d (.child parent block)) :
    HeaderChain network sha256d parent := by
  cases chain with
  | child chain params checked passed => exact chain

theorem HeaderChain.required (chain : HeaderChain network sha256d (.child parent block)) :
    block.msgHeader.blockHeader.bits = calcNextRequiredDifficulty network.params (some parent)
          block.msgHeader.blockHeader.timestamp.toUInt64.toInt64 ∧
      parent.header.timestamp.toNat < block.msgHeader.blockHeader.timestamp.toNat := by
  cases chain with
  | child chain params checked passed =>
    obtain ⟨bits, later⟩ := ChainCtx.of_checkBlockHeaderContext checked passed
    rw [params] at bits
    have unix : (HeaderCtx.timestamp parent).toInt = parent.header.timestamp.toNat := toInt_unix _
    rw [unix, minTimestampDeltaSeconds] at later
    exact ⟨bits, by omega⟩

theorem HeaderChain.ancestor
    (chain : HeaderChain network sha256d node) (member : found ∈ node.ancestors) :
    HeaderChain network sha256d found := by
  induction node with
  | genesis block =>
    rw [List.mem_singleton.mp member]
    exact chain
  | child parent block ih =>
    rcases List.mem_cons.mp member with rfl | above
    · exact chain
    · exact ih chain.ofChild above

theorem HeaderChain.timestamp_le
    (chain : HeaderChain network sha256d node) (member : found ∈ node.ancestors) :
    found.header.timestamp.toNat ≤ node.header.timestamp.toNat := by
  induction node with
  | genesis block => rw [List.mem_singleton.mp member]
  | child parent block ih =>
    rcases List.mem_cons.mp member with rfl | above
    · exact Nat.le_refl _
    · exact (ih chain.ofChild above).trans (Nat.le_of_lt chain.required.2)

theorem HeaderChain.usable (chain : HeaderChain network sha256d node) :
    Usable network.params node.header.bits := by
  obtain ⟨limit, small, limitBits, genesisBits⟩ := network.params_usable
  induction chain with
  | genesis bits =>
    rw [BlockNode.header, BlockNode.block, bits]
    exact genesisBits
  | child chain params checked passed ih =>
    obtain ⟨bits, _⟩ := ChainCtx.of_checkBlockHeaderContext checked passed
    rw [params] at bits
    rw [BlockNode.header, BlockNode.block, bits]
    apply usable_calcNextRequiredDifficulty limit small limitBits
    intro _
    exact ih

end Chain

theorem calcNextWtemaTarget_le (positive : 0 < oldTarget)
    (nonneg : 0 ≤ excess) (bounded : (t - 194).toInt ≤ excess) :
    calcNextWtemaTarget Network.mainNet.params oldTarget t ≤
      oldTarget + excess * oldTarget / 604800 := by
  have scaled : (t - 194).toInt * oldTarget ≤ excess * oldTarget :=
    Int.mul_le_mul_of_nonneg_right bounded (Int.le_of_lt positive)
  have divided := Int.ediv_le_ediv (show (0 : Int) < 604800 by decide) scaled
  have grows : 0 ≤ excess * oldTarget / 604800 :=
    Int.ediv_nonneg (Int.mul_nonneg nonneg (Int.le_of_lt positive)) (by decide)
  have half : Network.mainNet.params.wtemaHalfLife.toInt = 604800 := rfl
  have spacing : Network.mainNet.params.targetTimePerBlock = 194 := rfl
  simp only [calcNextWtemaTarget, half, spacing]
  generalize Network.mainNet.params.powLimit = limit
  split
  · split <;> omega
  · split <;> omega

theorem calcNextWtemaTarget_le_exp {oldTarget excess : Int} {t : Int64}
    (positive : 0 < oldTarget) (nonneg : 0 ≤ excess) (bounded : (t - 194).toInt ≤ excess) :
    ((calcNextWtemaTarget Network.mainNet.params oldTarget t : Int) : ℝ) ≤
      oldTarget * Real.exp (excess / 604800) := by
  have step : ((calcNextWtemaTarget Network.mainNet.params oldTarget t : Int) : ℝ) ≤
      oldTarget + (excess * oldTarget / 604800 : Int) := by
    exact_mod_cast calcNextWtemaTarget_le positive nonneg bounded
  have floored : ((excess * oldTarget / 604800 : Int) : ℝ) * 604800 ≤ excess * oldTarget := by
    exact_mod_cast Int.ediv_mul_le (excess * oldTarget) (show (604800 : Int) ≠ 0 by decide)
  have exponential := Real.add_one_le_exp ((excess : ℝ) / 604800)
  have target : (0 : ℝ) < oldTarget := by exact_mod_cast positive
  calc ((calcNextWtemaTarget Network.mainNet.params oldTarget t : Int) : ℝ)
      ≤ oldTarget + (excess * oldTarget / 604800 : Int) := step
    _ ≤ oldTarget * (excess / 604800 + 1) := by linarith
    _ ≤ oldTarget * Real.exp (excess / 604800) := mul_le_mul_of_nonneg_left exponential target.le

section Growth

variable {sha256d : Bytes → Hash} {parent : BlockNode} {block : MsgBlock}

theorem compactToBig_bigToCompact_le (positive : 0 < target)
    (small : target < 2 ^ 256) : compactToBig (bigToCompact target) ≤ target := by
  obtain ⟨n, rfl⟩ := Int.eq_ofNat_of_zero_le (Int.le_of_lt positive)
  rw [compactToBig_bigToCompact (by omega) (by omega)]
  have atMost := @ByteFloat.rounded_le n
  omega

theorem height_lt_activation {node : BlockNode} (phase : node.ancestors.length ≤ 15860) :
    ¬ node.height ≥ colossusAuxPowActivationBlock := by
  have height := @BlockNode.toInt_height node (by omega)
  have activation : colossusAuxPowActivationBlock.toInt = 15860 := rfl
  rw [ge_iff_le, Int32.le_iff_toInt_le]
  omega

theorem target_after_genesis
    (chain : HeaderChain .mainNet sha256d (.child (.genesis genesis) block)) :
    compactToBig block.msgHeader.blockHeader.bits =
      compactToBig genesis.msgHeader.blockHeader.bits := by
  rw [chain.required.1]
  rfl

theorem target_after_child {next : MsgBlock} {excess : Int}
    (chain : HeaderChain .mainNet sha256d (.child (.child parent block) next))
    (phase : (BlockNode.child parent block).ancestors.length ≤ 15860) (nonneg : 0 ≤ excess)
    (bounded : (block.msgHeader.blockHeader.timestamp.toNat : Int) -
      parent.header.timestamp.toNat - 194 ≤ excess) :
    (compactToBig next.msgHeader.blockHeader.bits : ℝ) ≤
      compactToBig block.msgHeader.blockHeader.bits * Real.exp (excess / 604800) := by
  have exactly := (noWrap .mainNet (.child parent block)).adjustment parent rfl
  have unix : (HeaderCtx.timestamp (BlockNode.child parent block)).toInt =
      block.msgHeader.blockHeader.timestamp.toNat := toInt_unix _
  have parentUnix : (HeaderCtx.timestamp parent).toInt = parent.header.timestamp.toNat :=
    toInt_unix _
  rw [unix, parentUnix] at exactly
  have growth := @calcNextWtemaTarget_le_exp _ _ (HeaderCtx.timestamp
    (BlockNode.child parent block) - HeaderCtx.timestamp parent)
    chain.ofChild.usable.1 nonneg (exactly.trans_le bounded)
  obtain ⟨limit, small, _⟩ := Network.mainNet.params_usable
  have required : next.msgHeader.blockHeader.bits =
      bigToCompact (calcNextWtemaTarget Network.mainNet.params
        (compactToBig (BlockNode.child parent block).header.bits)
        (HeaderCtx.timestamp (BlockNode.child parent block) - HeaderCtx.timestamp parent)) := by
    rw [chain.required.1, calcNextRequiredDifficulty]
    exact if_neg (height_lt_activation phase)
  obtain ⟨positive, atMost⟩ := calcNextWtemaTarget_range limit
    (compactToBig (BlockNode.child parent block).header.bits)
    (HeaderCtx.timestamp (BlockNode.child parent block) - HeaderCtx.timestamp parent)
  have rounded := compactToBig_bigToCompact_le positive (Int.lt_of_le_of_lt atMost small)
  rw [← required] at rounded
  calc (compactToBig next.msgHeader.blockHeader.bits : ℝ)
      ≤ (calcNextWtemaTarget Network.mainNet.params
          (compactToBig (BlockNode.child parent block).header.bits)
          (HeaderCtx.timestamp (BlockNode.child parent block) -
            HeaderCtx.timestamp parent) : Int) := by exact_mod_cast rounded
    _ ≤ _ := growth

/-- Where the checkpoint's own block was not slow, the target grows at most exponentially
with the time since the checkpoint. -/
theorem target_le_exp
    (chain : HeaderChain .mainNet sha256d (.child parent block))
    (member : checkpoint ∈ parent.ancestors) (phase : parent.ancestors.length ≤ 15860)
    (prompt : ∀ below, checkpoint.parent = some below →
      checkpoint.header.timestamp.toNat ≤ below.header.timestamp.toNat + 194) :
    (compactToBig block.msgHeader.blockHeader.bits : ℝ) ≤
      compactToBig checkpoint.header.bits * Real.exp
        (((parent.header.timestamp.toNat : Int) - checkpoint.header.timestamp.toNat : Int) /
          604800) := by
  -- On the chain: above the checkpoint each block's own time is its share of the exponent.
  induction parent generalizing block with
  | genesis genesis =>
    rw [List.mem_singleton.mp member, target_after_genesis chain, Int.sub_self]
    simp [BlockNode.header, BlockNode.block]
  | child parent last ih =>
    rcases List.mem_cons.mp member with rfl | above
    · have own := prompt parent rfl
      have step := @target_after_child _ _ _ _ 0 chain phase (le_refl 0) (by
        change last.msgHeader.blockHeader.timestamp.toNat ≤ _ at own
        omega)
      rw [Int.sub_self]
      exact step
    · have earlier := ih chain.ofChild above (by
        rw [BlockNode.ancestors, List.length_cons] at phase
        omega)
      have increasing := chain.ofChild.required.2
      have step := @target_after_child _ _ _ _
        ((last.msgHeader.blockHeader.timestamp.toNat : Int) - parent.header.timestamp.toNat)
        chain phase (by omega) (by omega)
      calc (compactToBig block.msgHeader.blockHeader.bits : ℝ)
          ≤ _ := step
        _ ≤ _ := mul_le_mul_of_nonneg_right earlier (Real.exp_pos _).le
        _ = _ := by
            rw [mul_assoc, ← Real.exp_add]
            congr 2
            change _ = (((last.msgHeader.blockHeader.timestamp.toNat : Int) - _ : Int) : ℝ) / _
            push_cast
            ring

end Growth

def startedHalfLives (elapsed : Int) : Int :=
  (elapsed + 604799) / 604800

theorem toInt_periods {duration : Int64} (positive : 0 < duration.toInt)
    (small : duration.toInt < 2 ^ 32) :
    ((duration + 604800 - 1) / 604800).toInt = startedHalfLives duration.toInt := by
  have half : (604800 : Int64).toInt = 604800 := rfl
  have one : (1 : Int64).toInt = 1 := rfl
  have sum := @toInt_add_of_fits duration 604800 _ _ rfl half (by omega) (by omega)
  have difference := toInt_sub_of_fits sum one (by omega) (by omega)
  rw [Int.add_sub_assoc] at difference
  rw [toInt_div_of_fits difference half (by omega)]
  exact Int.tdiv_eq_ediv_of_nonneg (by omega)

theorem exp_le_pow (count : Nat) : Real.exp count ≤ (87 / 32) ^ count := by
  have bound : Real.exp 1 ≤ 87 / 32 := by
    have below := Real.exp_one_lt_d9
    linarith
  calc Real.exp count
      = Real.exp 1 ^ count := by rw [← Real.exp_nat_mul, mul_one]
    _ ≤ (87 / 32) ^ count := pow_le_pow_left₀ (Real.exp_pos 1).le bound count

theorem le_compactToBig_clamped
    (usable : Usable Network.mainNet.params bits) (below : compactToBig bits ≤ newTarget) :
    compactToBig bits ≤ compactToBig (bigToCompact
      (if newTarget > Network.mainNet.params.powLimit then Network.mainNet.params.powLimit
        else newTarget)) := by
  obtain ⟨positive, withinLimit, canonical⟩ := usable
  obtain ⟨limit, small, _⟩ := Network.mainNet.params_usable
  generalize clamp : (if newTarget > Network.mainNet.params.powLimit then
    Network.mainNet.params.powLimit else newTarget) = clamped
  have low : compactToBig bits ≤ clamped := by
    rw [← clamp]
    split
    · exact withinLimit
    · exact below
  have high : clamped < 2 ^ 256 := by
    refine Int.lt_of_le_of_lt ?_ small
    rw [← clamp]
    split
    · exact Int.le_refl _
    · next notAbove => exact Int.not_lt.mp notAbove
  have kept := congrArg compactToBig canonical
  obtain ⟨n, targetEq⟩ := Int.eq_ofNat_of_zero_le (Int.le_of_lt positive)
  obtain ⟨bound, rfl⟩ := Int.eq_ofNat_of_zero_le (show 0 ≤ clamped by omega)
  rw [targetEq] at positive low kept ⊢
  have exactly : ByteFloat.rounded n = n := by
    rw [compactToBig_bigToCompact (by omega) (by omega)] at kept
    exact_mod_cast kept
  rw [compactToBig_bigToCompact (by omega) (by omega)]
  exact_mod_cast ByteFloat.le_rounded (by omega) exactly (by omega)

theorem le_powLimitBits (usable : Usable Network.mainNet.params bits) :
    compactToBig bits ≤ compactToBig Network.mainNet.params.powLimitBits := by
  have clamped := le_compactToBig_clamped usable usable.2.1
  rw [if_neg (Int.lt_irrefl _)] at clamped
  exact clamped

theorem le_calcEasiestDifficulty
    (usable : Usable Network.mainNet.params bits) (positive : 0 < duration.toInt)
    (small : duration.toInt < 2 ^ 32)
    (growth : startedHalfLives duration.toInt ≤ 177 → (compactToBig bits : ℝ) ≤
      compactToBig checkpointBits * Real.exp (startedHalfLives duration.toInt)) :
    compactToBig bits ≤
      compactToBig (calcEasiestDifficulty Network.mainNet.params checkpointBits duration) := by
  have after : duration > 0 := by
    rw [gt_iff_lt, Int64.lt_iff_toInt_lt]
    exact positive
  have half : Network.mainNet.params.wtemaHalfLife = 604800 := rfl
  have nonneg : 0 ≤ startedHalfLives duration.toInt := by
    unfold startedHalfLives
    omega
  rw [calcEasiestDifficulty, if_neg fun reduces => Bool.false_ne_true reduces.1, if_pos after, half]
  rw [← toInt_periods positive small] at growth nonneg
  dsimp only
  generalize (duration + 604800 - 1) / 604800 = periods at *
  split
  · exact le_powLimitBits usable
  · next few =>
    apply le_compactToBig_clamped usable
    have fewInt : periods.toInt ≤ 177 := by
      rw [gt_iff_lt, Int64.lt_iff_toInt_lt] at few
      exact Int.not_lt.mp few
    have five : (5 * periods).toInt = 5 * periods.toInt :=
      toInt_mul_of_fits rfl rfl (by omega) (by omega)
    have shift := @toNat_toUInt64_of_nonneg (5 * periods) (by omega)
    have power := @toNat_toUInt64_of_nonneg periods nonneg
    have shiftEq : (5 * periods).toUInt64.toNat = 5 * periods.toUInt64.toNat := by omega
    rw [shiftEq, Int.shiftRight_eq_div_pow, Int.le_ediv_iff_mul_le (by positivity)]
    have growth := growth fewInt
    rw [← power, Int.cast_natCast] at growth
    generalize periods.toUInt64.toNat = count at *
    have target : (0 : ℝ) < compactToBig bits := by exact_mod_cast usable.1
    have checkpoint : (0 : ℝ) ≤ compactToBig checkpointBits := by
      by_contra negative
      have product := mul_neg_of_neg_of_pos (not_le.mp negative) (Real.exp_pos count)
      linarith
    have bound : (compactToBig bits : ℝ) * 32 ^ count ≤
        compactToBig checkpointBits * 87 ^ count := by
      calc (compactToBig bits : ℝ) * 32 ^ count
          ≤ compactToBig checkpointBits * (87 / 32) ^ count * 32 ^ count :=
            mul_le_mul_of_nonneg_right
              (growth.trans (mul_le_mul_of_nonneg_left (exp_le_pow count) checkpoint))
              (by positivity)
        _ = compactToBig checkpointBits * 87 ^ count := by
            rw [mul_assoc, ← mul_pow]
            norm_num
    have powers : ((2 ^ (5 * count) : Nat) : Int) = 32 ^ count := by
      rw [Nat.pow_mul]
      norm_num
    rw [powers]
    exact_mod_cast bound

def secondsSince (checkpoint : BlockNode) (block : MsgBlock) : Int :=
  block.msgHeader.blockHeader.timestamp.toNat - checkpoint.header.timestamp.toNat

theorem checkPreviousCheckpoint_tooLow {rules : ChainRules}
    (refused : checkPreviousCheckpoint (rules.withDifficulty params) chain block flags
      checkpoint = .error (.rule (ruleError .errDifficultyTooLow message))) :
    compactToBig (calcEasiestDifficulty params checkpoint.header.bits
        (Int64.ofInt (secondsSince checkpoint block))) <
      compactToBig block.msgHeader.blockHeader.bits := by
  by_contra within
  have passes : ¬ compactToBig block.msgHeader.blockHeader.bits >
      compactToBig ((rules.withDifficulty params).calcEasiestDifficulty checkpoint.header.bits
        (block.msgHeader.blockHeader.timestamp.toNat - checkpoint.header.timestamp.toNat)) := within
  -- The other two checks fail with errors of their own.
  have other : ∀ {code : ErrorCode} {condition : Prop} [Decidable condition] {text : String}
      {next : Unit → Except ChainError Unit}, code ≠ .errDifficultyTooLow →
      (require condition (.rule (ruleError code text)) >>= next) =
        .error (.rule (ruleError .errDifficultyTooLow message)) →
      next () = .error (.rule (ruleError .errDifficultyTooLow message)) := by
    intro code condition _ text next differs fails
    by_cases holds : condition
    · rwa [require_pos holds] at fails
    · rw [require, if_neg holds] at fails
      cases fails
      exact absurd rfl differs
  rw [checkPreviousCheckpoint] at refused
  simp only [require_pos passes] at refused
  split at refused
  · have rest := other (by decide) refused
    split at rest <;> cases rest
  · have rest := other (by decide) (other (by decide) refused)
    split at rest <;> cases rest

theorem checkPreviousCheckpoint_refuses {rules : ChainRules}
    (known : lookupNode chain block.msgHeader.blockHeader.prevBlock = some prevNode)
    (notFork : ¬ prevNode.height + 1 < checkpoint.height)
    (notEarlier : ¬ block.msgHeader.blockHeader.timestamp < checkpoint.header.timestamp)
    (above : compactToBig (calcEasiestDifficulty params checkpoint.header.bits
        (Int64.ofInt (secondsSince checkpoint block))) <
      compactToBig block.msgHeader.blockHeader.bits) :
    ∃ message, checkPreviousCheckpoint (rules.withDifficulty params) chain block .none
      checkpoint = .error (.rule (ruleError .errDifficultyTooLow message)) := by
  have fails : ¬ ¬ compactToBig block.msgHeader.blockHeader.bits >
      compactToBig ((rules.withDifficulty params).calcEasiestDifficulty checkpoint.header.bits
        (secondsSince checkpoint block)) :=
    fun within => within above
  rw [checkPreviousCheckpoint]
  simp only [known, require_pos notFork, require_pos notEarlier, BehaviorFlags.none,
    Bool.false_eq_true, if_false]
  exact ⟨_, if_neg fails⟩

/-- What keeps the target of a block below the bound that a checkpoint sets: the weighted
average was in force and the checkpoint's own block took no longer than planned; the checkpoint
has the easiest difficulty there is; the checkpoint is so old that every difficulty is allowed;
or the target has grown by no more than a factor of `e` for each half-life that has begun. -/
inductive Paced (parent checkpoint : BlockNode) (block : MsgBlock) : Prop
  | weighted (phase : parent.ancestors.length ≤ 15860)
      (prompt : ∀ below, checkpoint.parent = some below →
        checkpoint.header.timestamp.toNat ≤ below.header.timestamp.toNat + 194)
  | easiest (bits : checkpoint.header.bits = Network.mainNet.params.powLimitBits)
  | old (elapsed : 177 * 604800 < secondsSince checkpoint block)
  | gradual (growth : (compactToBig block.msgHeader.blockHeader.bits : ℝ) ≤
      compactToBig checkpoint.header.bits *
        Real.exp (startedHalfLives (secondsSince checkpoint block)))

section Paced

variable {sha256d : Bytes → Hash} {parent checkpoint : BlockNode} {block : MsgBlock}
  (chain : HeaderChain .mainNet sha256d (.child parent block))
  (member : checkpoint ∈ parent.ancestors)

include chain member

theorem secondsSince_range :
    0 < secondsSince checkpoint block ∧ secondsSince checkpoint block < 2 ^ 32 ∧
      (parent.header.timestamp.toNat : Int) - checkpoint.header.timestamp.toNat ≤
        secondsSince checkpoint block := by
  have later := chain.required.2
  have order := chain.ofChild.timestamp_le member
  have small := block.msgHeader.blockHeader.timestamp.toNat_lt
  unfold secondsSince
  omega

theorem grown_of_le (notEasier : compactToBig block.msgHeader.blockHeader.bits ≤
      compactToBig checkpoint.header.bits) :
    (compactToBig block.msgHeader.blockHeader.bits : ℝ) ≤ compactToBig checkpoint.header.bits *
      Real.exp (startedHalfLives (secondsSince checkpoint block)) := by
  have target : (0 : ℝ) < compactToBig checkpoint.header.bits := by
    exact_mod_cast (chain.ofChild.ancestor member).usable.1
  have started : 0 ≤ startedHalfLives (secondsSince checkpoint block) := by
    have positive := (secondsSince_range chain member).1
    unfold startedHalfLives
    omega
  calc (compactToBig block.msgHeader.blockHeader.bits : ℝ)
      ≤ compactToBig checkpoint.header.bits := by exact_mod_cast notEasier
    _ ≤ _ := le_mul_of_one_le_right target.le (Real.one_le_exp (by exact_mod_cast started))

theorem Paced.growth (paced : Paced parent checkpoint block)
    (few : startedHalfLives (secondsSince checkpoint block) ≤ 177) :
    (compactToBig block.msgHeader.blockHeader.bits : ℝ) ≤ compactToBig checkpoint.header.bits *
      Real.exp (startedHalfLives (secondsSince checkpoint block)) := by
  cases paced with
  | weighted phase prompt =>
    have checkpointTarget : (0 : ℝ) < compactToBig checkpoint.header.bits := by
      exact_mod_cast (chain.ofChild.ancestor member).usable.1
    obtain ⟨_, _, sinceParent⟩ := secondsSince_range chain member
    refine (target_le_exp chain member phase prompt).trans
      (mul_le_mul_of_nonneg_left (Real.exp_le_exp.mpr ?_) checkpointTarget.le)
    rw [div_le_iff₀ (by norm_num)]
    have enough : (parent.header.timestamp.toNat : Int) - checkpoint.header.timestamp.toNat ≤
        startedHalfLives (secondsSince checkpoint block) * 604800 := by
      unfold startedHalfLives
      omega
    exact_mod_cast enough
  | easiest bits =>
    apply grown_of_le chain member
    rw [bits]
    exact le_powLimitBits chain.usable
  | old elapsed =>
    unfold startedHalfLives at few
    omega
  | gradual growth => exact growth

end Paced

namespace SlowDayExample

open RequiredDifficultyExample

variable {node : BlockNode} {sha256d : Bytes → Hash}

theorem bits_steady (below : number ≤ 15860) :
    (steady number).header.bits = 0x1b00ffff := by
  induction number with
  | zero => rfl
  | succ number ih =>
    have unchanged := ih (by omega)
    cases number with
    | zero => rfl
    | succ number =>
      have onTime : HeaderCtx.timestamp (steady (number + 1)) -
          HeaderCtx.timestamp (steady number) = 194 := by
        have exactly := (noWrap .mainNet (steady (number + 1))).blockTime (steady number) rfl
        have unix : (HeaderCtx.timestamp (steady (number + 1))).toInt =
            (steady (number + 1)).header.timestamp.toNat := toInt_unix _
        have parentUnix : (HeaderCtx.timestamp (steady number)).toInt =
            (steady number).header.timestamp.toNat := toInt_unix _
        rw [unix, parentUnix, timestamp_steady (by omega), timestamp_steady (by omega)]
          at exactly
        rw [← Int64.toInt_inj, exactly]
        change _ = (194 : Int)
        omega
      have low := height_lt_activation (show (steady (number + 1)).ancestors.length ≤ 15860
        by rw [length_steady]; omega)
      rw [steady, bits_extend, calcNextRequiredDifficulty]
      refine (if_neg low).trans ?_
      change bigToCompact (calcNextWtemaTarget _ (compactToBig (steady (number + 1)).header.bits)
        (HeaderCtx.timestamp (steady (number + 1)) - HeaderCtx.timestamp (steady number))) = _
      rw [onTime, unchanged]
      decide

structure IsAnchor (anchor : BlockNode) : Prop where
  length : anchor.ancestors.length = 15861
  timestamp : anchor.header.timestamp.toNat = 1783986040
  bits : anchor.header.bits = 0x1b00ffff
  start : (asertAnchorTime anchor).toInt = 1783985846

theorem isAnchor_steady : IsAnchor (steady 15860) where
  length := length_steady 15860
  timestamp := timestamp_steady (Nat.le_refl _)
  bits := bits_steady (Nat.le_refl _)
  start := by
    have previous : (HeaderCtx.timestamp (steady 15859)).toInt =
        (steady 15859).header.timestamp.toNat := toInt_unix _
    rw [timestamp_steady (by omega)] at previous
    exact previous

theorem exists_anchor :
    ∃ anchor, IsAnchor anchor ∧ ∀ sha256d, HeaderChain .mainNet sha256d anchor :=
  ⟨steady 15860, isAnchor_steady, fun _ => headerChain_steady (Nat.le_refl _)⟩

/-- The bits that are required at some distance from an anchor with the easiest target. -/
def asertBits (timeDiff heightDiff : Int64) : UInt32 :=
  bigToCompact (calcASERT (compactToBig 0x1b00ffff) colossusTargetBlockTime timeDiff heightDiff
    Network.mainNet.params.powLimit colossusASERTHalflife)

section After

variable {anchor : BlockNode} {passed elapsed : Nat} (isAnchor : IsAnchor anchor)
  (member : anchor ∈ node.ancestors) (length : node.ancestors.length = 15861 + passed)
  (after : 0 < passed) (few : passed < 1640)
include isAnchor member length after few

theorem asertAnchor_after : asertAnchor node = some anchor := by
  have height := @BlockNode.toInt_height node (by omega)
  have anchorHeight := @BlockNode.toInt_height anchor (by rw [isAnchor.length]; omega)
  rw [isAnchor.length] at anchorHeight
  rw [length] at height
  have anchorEq : anchor.height = 15860 := by
    rw [← Int32.toInt_inj, anchorHeight]
    rfl
  have anchored : asertAnchorHeight (HeaderCtx.height node) = 15860 := by
    apply if_neg
    rintro ⟨_, late⟩
    rw [ge_iff_le, Int32.le_iff_toInt_le] at late
    change (17500 : Int) ≤ node.height.toInt at late
    omega
  have steps : (node.height - 15860).toInt = passed := by
    have constant : (15860 : Int32).toInt = 15860 := rfl
    rw [Int32.toInt_sub, constant, Int.bmod_eq_of_le]
    · omega
    · omega
    · omega
  rw [asertAnchor, anchored]
  change (if node.height - 15860 < 0 then none
    else if node.height - 15860 > 0 then
      node.skipAncestor (node.height - (node.height - 15860))
    else some node) = some anchor
  rw [if_neg, if_pos]
  · have cancelled : node.height - (node.height - 15860) = anchor.height := by
      rw [anchorEq]
      grind
    rw [cancelled, BlockNode.skipAncestor_eq_ancestor (by omega),
      ← BlockNode.ancestor_of_mem (by omega) member (Int32.le_refl _)]
    apply BlockNode.ancestor_self
    rw [anchorEq]
    decide
  · rw [gt_iff_lt, Int32.lt_iff_toInt_lt, steps]
    change (0 : Int) < passed
    omega
  · rw [Int32.lt_iff_toInt_lt, steps]
    change ¬ (passed : Int) < 0
    omega

theorem required_after_anchor (time : node.header.timestamp.toNat = 1783986040 + elapsed)
    (soon : elapsed < 2 ^ 30) (newBlockTime : Int64) :
    calcNextRequiredDifficulty Network.mainNet.params (some node) newBlockTime =
      asertBits (Int64.ofInt (elapsed + 194)) (Int64.ofInt passed) := by
  have found := asertAnchor_after isAnchor member length after few
  have height := @BlockNode.toInt_height node (by omega)
  have anchorHeight := @BlockNode.toInt_height anchor (by rw [isAnchor.length]; omega)
  rw [isAnchor.length] at anchorHeight
  rw [length] at height
  have activated : HeaderCtx.height node ≥ colossusAuxPowActivationBlock := by
    rw [ge_iff_le, Int32.le_iff_toInt_le]
    change (15860 : Int) ≤ node.height.toInt
    omega
  have timeDiff : HeaderCtx.timestamp node - asertAnchorTime anchor =
      Int64.ofInt (elapsed + 194) := by
    have exactly := (noWrap .mainNet node).timeDiff anchor found
    have unix : (HeaderCtx.timestamp node).toInt = node.header.timestamp.toNat := toInt_unix _
    rw [unix, time, isAnchor.start] at exactly
    rw [← Int64.toInt_inj, exactly, Int64.toInt_ofInt_of_le (by omega) (by omega)]
    omega
  have heightDiff : (HeaderCtx.height node - HeaderCtx.height anchor).toInt64 =
      Int64.ofInt passed := by
    have exactly := (noWrap .mainNet node).heightDiff anchor found
    change _ = node.height.toInt - anchor.height.toInt at exactly
    rw [← Int64.toInt_inj, exactly, Int64.toInt_ofInt_of_le (by omega) (by omega)]
    omega
  rw [calcNextRequiredDifficulty]
  refine (if_pos activated).trans ?_
  rw [calcNextAsertTarget, found]
  change bigToCompact (calcASERT (compactToBig anchor.header.bits) _ _ _ _ _) = _
  rw [timeDiff, heightDiff, isAnchor.bits]
  rfl

end After

def fast (anchor : BlockNode) : Nat → BlockNode
  | 0 => anchor
  | number + 1 => extend (fast anchor number) (1783986040 + (number + 1))

theorem mem_ancestors_fast (anchor : BlockNode) (number : Nat) :
    anchor ∈ (fast anchor number).ancestors := by
  induction number with
  | zero => exact BlockNode.self_mem_ancestors
  | succ number ih => exact .tail _ ih

section Fast

variable {anchor : BlockNode} (isAnchor : IsAnchor anchor)

include isAnchor

theorem length_fast (number : Nat) : (fast anchor number).ancestors.length = 15861 + number := by
  induction number with
  | zero => exact isAnchor.length
  | succ number ih => rw [fast, length_extend, ih, Nat.add_assoc]

theorem timestamp_fast {number : Nat} (few : number < 2 ^ 30) :
    (fast anchor number).header.timestamp.toNat = 1783986040 + number := by
  cases number with
  | zero => exact isAnchor.timestamp
  | succ number => exact timestamp_extend (by omega)

theorem headerChain_fast (chain : HeaderChain .mainNet sha256d anchor) (few : number < 2 ^ 30) :
    HeaderChain .mainNet sha256d (fast anchor number) := by
  induction number with
  | zero => exact chain
  | succ number ih =>
    apply headerChain_extend (ih (by omega)) (by omega)
    rw [timestamp_fast isAnchor (by omega)]
    omega

theorem bits_extend_fast {number : Nat} (after : 0 < number) (few : number < 1640)
    (timestamp : Nat) : (extend (fast anchor number) timestamp).header.bits =
    asertBits (Int64.ofInt (number + 194)) (Int64.ofInt number) := by
  rw [bits_extend]
  exact required_after_anchor isAnchor (mem_ancestors_fast anchor number)
    (length_fast isAnchor number) after few (timestamp_fast isAnchor (by omega)) (by omega) _

theorem bits_checkpoint : (fast anchor 200).header.bits = asertBits 393 199 :=
  bits_extend_fast isAnchor (by decide) (by decide) _

def slow (anchor : BlockNode) : BlockNode :=
  extend (fast anchor 200) (1783986040 + 86600)

theorem headerChain_slow (chain : HeaderChain .mainNet sha256d anchor) :
    HeaderChain .mainNet sha256d (slow anchor) := by
  apply headerChain_extend (headerChain_fast isAnchor chain (by omega)) (by omega)
  rw [timestamp_fast isAnchor (by omega)]
  omega

theorem bits_after_slow (timestamp : Nat) :
    (extend (slow anchor) timestamp).header.bits = asertBits 86794 201 := by
  rw [bits_extend]
  apply @required_after_anchor _ _ 201 86600 isAnchor
  · exact .tail _ (mem_ancestors_fast anchor 200)
  · rw [slow, length_extend, length_fast isAnchor]
  · omega
  · omega
  · exact timestamp_extend (by omega)
  · omega

end Fast

theorem bound_below_required :
    compactToBig (calcEasiestDifficulty Network.mainNet.params (asertBits 393 199) 86401) <
      compactToBig (asertBits 86794 201) := by
  decide

end SlowDayExample

end ModelOS.BlockChain
