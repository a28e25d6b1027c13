import ModelOS.BlockChain.BestChain

namespace ModelOS.BlockChain

open Data Wire ZkPow

/-! A native header's certificate is checked without context, a merged-mined header's
proof only on top of its parent. -/

def certificateMaxSize : Nat := 65000

/-- A number in hexadecimal, padded with zeros to 64 places, the sign among
them. -/
def hexPadded (n : Int) : String :=
  let digits := Nat.toDigits 16 n.natAbs
  let sign := if n < 0 then ['-'] else []
  String.ofList (sign ++ List.replicate (64 - sign.length - digits.length) '0' ++ digits)

structure WorkParams where
  powLimit : Int
  maxTimeOffsetMinutes : Nat

section Checks

variable (sha256d : Bytes → Hash) (verifier : ProofVerifier)

def verifyCertificate (header : BlockHeader) (certificate : ZKCertificate) : Except String Unit :=
  verifyZKCertificateInner sha256d verifier header certificate none

def checkProofOfWork (header : BlockHeader) (certificate : Option ZKCertificate)
    (powLimit : Int) (noPoWCheck : Bool) : Except RuleError Unit := do
  let target := compactToBig header.bits
  require (¬ target ≤ 0) (ruleError .errUnexpectedDifficulty
    ("block target difficulty of " ++ hexPadded target ++ " is too low"))
  require (¬ target > powLimit) (ruleError .errUnexpectedDifficulty
    ("block target difficulty of " ++ hexPadded target ++
      " is higher than max of " ++ hexPadded powLimit))
  if isAuxPowBlock header then .ok ()
  else do
    let certificate ← present certificate
      (ruleError .errCertificateMissing "certificate is missing")
    if noPoWCheck then .ok ()
    else
      describe (fun error => ruleError .errHighHash ("certificate verification failed: " ++ error))
        (verifyCertificate sha256d verifier header certificate)

/-- The one kind of certificate has the version that is allowed. -/
def checkCertificate (header : BlockHeader) : Option ZKCertificate → Except RuleError Unit
  | none =>
    require (isAuxPowBlock header = true)
      (ruleError .errCertificateMissing "block has no certificate")
  | some certificate =>
    let certSize := 4 + (32 + publicDataSize + 4 + certificate.proofData.length)
    require (certSize ≤ certificateMaxSize) (ruleError .errCertificateTooLarge
      ("certificate too large: " ++ toString certSize ++ " bytes (max " ++
        toString certificateMaxSize ++ ")"))

/-- Times are whole seconds. -/
def checkBlockHeaderSanity (params : WorkParams) (block : MsgBlock)
    (adjustedTime : Nat) (noPoWCheck : Bool) : Except RuleError Unit := do
  let header := block.msgHeader.blockHeader
  let certificate := block.msgHeader.certificate
  checkCertificate header certificate
  require (header.timestamp.toNat ≤ adjustedTime + 60 * params.maxTimeOffsetMinutes)
    (ruleError .errTimeTooNew ("block timestamp of " ++
      toString header.timestamp ++ " is too far in the future"))
  checkProofOfWork sha256d verifier header certificate params.powLimit noPoWCheck

end Checks

def ChainRules.withWork (rules : ChainRules) (params : WorkParams)
    (verifier : ProofVerifier) : ChainRules :=
  { rules with
    verifier := verifier
    checkBlockHeaderSanity :=
      BlockChain.checkBlockHeaderSanity rules.sha256d verifier params }

def WorkVerified (rules : ChainRules) (block : MsgBlock) : Prop :=
  let header := block.msgHeader.blockHeader
  if isAuxPowBlock header then
    ∃ height, verifyAuxPow rules.sha256d rules.verifier block.auxPow height
      header.prevBlock (compactToBig header.bits) rules.network = .ok ()
  else
    ∃ certificate, block.msgHeader.certificate = some certificate ∧
      verifyCertificate rules.sha256d rules.verifier header certificate = .ok ()

def Kept (rules : ChainRules) (state : ChainState) (block : MsgBlock) : Prop :=
  (∃ orphan ∈ state.orphans, orphan.block = block) ∨
  ∃ entry, state.chain.index (blockHashOf rules block) = some entry ∧ entry.node.block = block

section Retention

variable {rules : ChainRules} {params : WorkParams} {verifier : ProofVerifier}
  {state : ChainState} {chain : Chain} {block : MsgBlock} {adjustedTime : Nat}
  {keep : OrphanBlock → Bool}

theorem Unseen.not_kept (unseen : Unseen rules state block) : ¬ Kept rules state block := by
  intro kept
  rcases kept with ⟨orphan, member, rfl⟩ | ⟨entry, found, _⟩
  · exact isPooled_eq_false_iff.mp unseen.notPooled orphan member rfl
  · simpa [blockExists, found] using unseen.isNew

theorem Unseen.not_kept_findPreviousCheckpoint (unseen : Unseen rules state block) : ¬ Kept rules
      { state with chain := (findPreviousCheckpoint rules state.chain).1 } block := by
  obtain ⟨_, _, moved⟩ := @findPreviousCheckpoint_chain rules state.chain
  rw [moved]
  exact unseen.not_kept

theorem workVerified_of_sane (notSimNet : rules.isSimNet = false)
    (native : isAuxPowBlock block.msgHeader.blockHeader = false)
    (sane : checkBlockSanity (rules.withWork params verifier) block adjustedTime .none = .ok ()) :
    WorkVerified (rules.withWork params verifier) block := by
  simp only [checkBlockSanity, ChainRules.withWork, notSimNet, BehaviorFlags.none,
    Bool.or_self, checkBlockHeaderSanity, checkProofOfWork, native,
    Bool.false_eq_true, if_false, bind_eq_ok, describe_eq_ok, present_eq_ok] at sane
  obtain ⟨_, ⟨_, _, _, _, _, _, _, _, certificate, present, verified⟩, _⟩ := sane
  rw [WorkVerified, if_neg (by simp [native])]
  exact ⟨certificate, present, verified⟩

theorem workVerified_of_context
    (merged : isAuxPowBlock block.msgHeader.blockHeader = true)
    (passed : checkBlockContext rules block prevNode .none previousCheckpoint = .ok ()) :
    WorkVerified rules block := by
  simp only [checkBlockContext, BehaviorFlags.none, Bool.false_eq_true, if_false,
    bind_eq_ok, describe_eq_ok, checkBlockContextAuxPow, merged, if_true] at passed
  obtain ⟨_, _, _, verified, _⟩ := passed
  rw [WorkVerified, if_pos merged]
  exact ⟨_, verified⟩

variable {flags : BehaviorFlags}

/-- A block is accepted, or joins the index, after it has passed the check on top
of its parent. -/
theorem passed_of_reached (isNew : chain.index (blockHashOf rules block) = none)
    (ended : maybeAcceptBlock rules chain block flags fastAdded = (after, result))
    (reached : result.isOk = true ∨ after.index (blockHashOf rules block) ≠ none) :
    ∃ prevNode previousCheckpoint, checkBlockContext rules block prevNode flags
      previousCheckpoint = .ok () := by
  have failed {same : Chain} {error : ChainError} (index : same.index = chain.index)
      (ended : (same, .error error) = (after, result)) : False := by
    cases ended
    rcases reached with accepted | indexed
    · cases accepted
    · rw [index] at indexed
      exact indexed isNew
  unfold maybeAcceptBlock at ended
  dsimp only at ended
  split at ended
  · exact (failed rfl ended).elim
  · next prevNode _ =>
    split at ended
    · exact (failed rfl ended).elim
    · split at ended
      · obtain ⟨_, _, moved⟩ := @afterContextLookup_chain rules flags chain
          block.msgHeader.blockHeader prevNode
        exact (failed (by rw [moved]) ended).elim
      · next passed => exact ⟨prevNode, _, passed⟩

/-- The check without context asks nothing of the verifier for a merged-mined
header. -/
theorem checkBlockSanity_withWork (merged : isAuxPowBlock block.msgHeader.blockHeader = true)
    (other : ProofVerifier) :
    checkBlockSanity (rules.withWork params verifier) block adjustedTime flags =
      checkBlockSanity (rules.withWork params other) block adjustedTime flags := by
  simp only [checkBlockSanity, ChainRules.withWork, checkBlockHeaderSanity,
    checkProofOfWork, merged, if_true]
  rfl

theorem not_workVerified_of_merged (merged : isAuxPowBlock block.msgHeader.blockHeader = true)
    (rejects : ∀ header publicData proofBlob nbits,
      (verifier.verifyZkProofAuxpowWithNbits header publicData proofBlob nbits).1 ≠ 0) :
    ¬ WorkVerified (rules.withWork params verifier) block := by
  rw [WorkVerified, if_pos merged]
  rintro ⟨height, verified⟩
  cases present : block.auxPow with
  | none => simp [verifyAuxPow, present] at verified
  | some auxPow =>
    rw [present] at verified
    obtain ⟨pearlHeader, _, proof⟩ := (verifyAuxPow_ok.mp verified).proof
    exact rejects _ _ _ _ (verifyZKCertificateInner_ok.mp proof).2.2.2

def rejectAll : ProofVerifier where
  verifyZkProofV2 _ _ _ := (1, "")
  verifyZkProofAuxpowWithNbits _ _ _ _ := (1, "")

theorem admissible_of_kept (unseen : Unseen rules state block)
    (kept : Kept rules (processBlock rules state block flags adjustedTime keep).1 block) :
    Admissible rules state block flags adjustedTime := by
  have processed := @processed_processBlock rules flags state block adjustedTime keep
  generalize processBlock rules state block flags adjustedTime keep = outcome at *
  cases processed with
  | duplicate => exact absurd kept unseen.not_kept
  | pooled => exact absurd kept unseen.not_kept
  | insane => exact absurd kept unseen.not_kept
  | behindCheckpoint => exact absurd kept unseen.not_kept_findPreviousCheckpoint
  | admitted _ admissible => exact admissible

theorem passed_of_kept (unseen : Unseen rules state block)
    (parentKnown : blockExists state.chain block.msgHeader.blockHeader.prevBlock = true)
    (kept : Kept rules (processBlock rules state block flags adjustedTime keep).1 block) :
    ∃ prevNode previousCheckpoint, checkBlockContext rules block prevNode flags
      previousCheckpoint = .ok () := by
  have isNew : (findPreviousCheckpoint rules state.chain).1.index
      (blockHashOf rules block) = none := by
    obtain ⟨_, _, moved⟩ := @findPreviousCheckpoint_chain rules state.chain
    rw [moved]
    simpa [blockExists] using unseen.isNew
  have admitted := @admitted_processBlock rules flags state block adjustedTime keep
    (admissible_of_kept unseen kept)
  generalize processBlock rules state block flags adjustedTime keep = outcome at *
  cases admitted with
  | orphan unknown => simp [parentKnown] at unknown
  | refused after error _ failed =>
    refine passed_of_reached isNew failed (.inr ?_)
    rcases kept with ⟨orphan, member, rfl⟩ | ⟨entry, found, _⟩
    · exact absurd rfl (isPooled_eq_false_iff.mp unseen.notPooled orphan member)
    · rw [found]
      exact Option.some_ne_none entry
  | accepted after isMainChain _ passed =>
    exact passed_of_reached isNew passed (.inl rfl)

/-- A block that is not known yet is kept without a look at its work exactly when
its work is merged-mined, its parent is unknown and the checks before the parent
is looked for let it pass. -/
theorem kept_verified_iff (rules : ChainRules) (params : WorkParams)
    (notSimNet : rules.isSimNet = false) (state : ChainState) (block : MsgBlock)
    (unseen : Unseen rules state block) (adjustedTime : Nat) (keep : OrphanBlock → Bool) :
    (∀ verifier, Kept rules (processBlock (rules.withWork params verifier) state
        block .none adjustedTime keep).1 block →
      WorkVerified (rules.withWork params verifier) block) ↔
    isAuxPowBlock block.msgHeader.blockHeader = false ∨
    blockExists state.chain block.msgHeader.blockHeader.prevBlock = true ∨
    ∀ verifier, ¬ Admissible (rules.withWork params verifier) state block .none adjustedTime := by
  constructor
  · intro verified
    by_contra unverified
    push Not at unverified
    obtain ⟨merged, unknown, verifier, admissible⟩ := unverified
    replace merged := Bool.eq_true_of_not_eq_false merged
    replace unknown := Bool.eq_false_of_not_eq_true unknown
    have admissible : Admissible (rules.withWork params rejectAll) state block .none adjustedTime :=
      ⟨⟨unseen.isNew, unseen.notPooled⟩,
        (checkBlockSanity_withWork merged rejectAll).symm.trans admissible.sane,
        admissible.checkpoint⟩
    refine not_workVerified_of_merged merged (fun _ _ _ _ => (by decide : (1 : Int32) ≠ 0))
      (verified rejectAll (.inl ?_))
    rw [processBlock_of_orphan admissible unknown]
    exact ⟨⟨block, false⟩, List.mem_append_right _ (List.mem_singleton_self _), rfl⟩
  · intro holds verifier kept
    have unseen : Unseen (rules.withWork params verifier) state block :=
      ⟨unseen.isNew, unseen.notPooled⟩
    have admissible := admissible_of_kept unseen kept
    cases merged : isAuxPowBlock block.msgHeader.blockHeader with
    | false => exact workVerified_of_sane notSimNet merged admissible.sane
    | true =>
      rcases holds with native | parentKnown | never
      · rw [merged] at native
        cases native
      · obtain ⟨prevNode, _, passed⟩ := passed_of_kept unseen parentKnown kept
        exact workVerified_of_context merged passed
      · exact absurd admissible (never verifier)

end Retention

namespace RegTestExample

open SimNetExample (genesisBlock genesisHash genesisHeader powLimitBits coinbase firstTxHash)

def regTest : UInt32 := 0x4d444c52

def params : WorkParams := ⟨2 ^ 233 - 1, 120⟩

def nativeHeader : BlockHeader where
  version := 1
  prevBlock := genesisHash
  merkleRoot := firstTxHash
  timestamp := 1776675601
  bits := powLimitBits
  proofCommitment := MergedBlockExample.publicDataCommitment

def nativeHash : Hash :=
  .ofNat 32 0xb8d1959d31d43f7985165489cfa88c710be8ebbad83715a6ff1584a98b709ca8

def nativeBlock : MsgBlock where
  msgHeader := ⟨some ⟨nativeHash, .zero publicDataSize, [1]⟩, nativeHeader⟩
  auxPow := none
  transactions := [coinbase 1]

def mergedHeader : BlockHeader where
  version := 0x1101
  prevBlock := MergedBlockExample.prevBlock
  merkleRoot := firstTxHash
  timestamp := 1776675601
  bits := powLimitBits
  proofCommitment := .ofNat 32 0x2af5dc0fdac75257c2cfd03f42d9ef0b16ff6cb13d4061b30ee75d0719f0d85b

def mergedHash : Hash :=
  .ofNat 32 0xea8b17dffa124a0d9b510da1d589811b810ecfbd4d8de9d187ab630f8e5f5311

def mergedBlock : MsgBlock where
  msgHeader := ⟨none, mergedHeader⟩
  auxPow := some MergedBlockExample.auxPow
  transactions := [coinbase 1]

def sha256d (message : Bytes) : Hash :=
  if message = writeBlockHeader genesisHeader then genesisHash
  else if message = writeBlockHeader nativeHeader then nativeHash
  else if message = writeBlockHeader mergedHeader then mergedHash
  else if message = leBytes 4 1 ++ List.replicate 164 0 then
    MergedBlockExample.publicDataCommitment
  else .zero 32

def blake3 (message : Bytes) : Hash :=
  if message = leBytes 4 regTest.toNat ++ leBytes 4 0 ++
      MergedBlockExample.auxPow.serialise then mergedHeader.proofCommitment
  else .zero 32

def rules : ChainRules :=
  { SimNetExample.rules with
    sha256d := sha256d
    blake3 := blake3
    network := regTest
    isSimNet := false }

/-- The native certificate counts as valid; the merged-mined block's one-byte proof
does not. -/
def verifier : ProofVerifier where
  verifyZkProofV2 header publicData proofBlob :=
    if header = blockHeaderToC nativeHeader ∧ publicData = List.replicate 164 0 ∧
        proofBlob = [1] then (0, "")
    else (1, "")
  verifyZkProofAuxpowWithNbits _ _ _ _ := (1, "")

def start : ChainState := .initial rules genesisBlock

def submit (block : MsgBlock) : ChainState :=
  (processBlock (rules.withWork params verifier) start block .none 1776675700 fun _ => true).1

end RegTestExample

open RegTestExample in
theorem kept_verified_regTest : Kept rules (submit nativeBlock) nativeBlock ∧
      WorkVerified (rules.withWork params verifier) nativeBlock := by
  have unseen : Unseen rules RegTestExample.start nativeBlock :=
    ⟨by decide, by decide⟩
  have admissible : Admissible (rules.withWork params verifier) RegTestExample.start nativeBlock
      .none 1776675700 := .of_noCheckpoints rfl unseen.isNew unseen.notPooled (by decide)
  have accepted : (maybeAcceptBlock (rules.withWork params verifier)
      RegTestExample.start.chain nativeBlock .none false).2 = .ok true := by
    decide
  have indexed : ((maybeAcceptBlock (rules.withWork params verifier)
      RegTestExample.start.chain nativeBlock .none false).1.index
      (blockHashOf rules nativeBlock)).map (fun entry => entry.node.block) = some nativeBlock := by
    decide
  have ended : submit nativeBlock = ⟨(maybeAcceptBlock (rules.withWork params
      verifier) RegTestExample.start.chain nativeBlock .none false).1, []⟩ :=
    congrArg Prod.fst ((processBlock_of_accepted admissible (by decide)
      (Prod.ext rfl accepted)).trans serveOrphans_nil)
  have kept : Kept rules (submit nativeBlock) nativeBlock := by
    rw [ended]
    exact .inr (Option.map_eq_some_iff.mp indexed)
  exact ⟨kept, (kept_verified_iff rules params rfl RegTestExample.start nativeBlock unseen
    1776675700 fun _ => true).mpr (.inl (by decide)) verifier kept⟩

open RegTestExample in
theorem kept_unverified_regTest : Kept rules (submit mergedBlock) mergedBlock ∧
      ¬ WorkVerified (rules.withWork params verifier) mergedBlock := by
  have admissible : Admissible (rules.withWork params verifier) RegTestExample.start mergedBlock
      .none 1776675700 := .of_noCheckpoints rfl (by decide) (by decide)
      (by decide +kernel)
  have ended : (submit mergedBlock).orphans = [⟨mergedBlock, false⟩] :=
    congrArg (fun outcome => outcome.1.orphans)
      (processBlock_of_orphan admissible (by decide))
  refine ⟨.inl ⟨⟨mergedBlock, false⟩, ?_, rfl⟩,
    not_workVerified_of_merged (by decide) fun _ _ _ _ =>
      (by decide : (1 : Int32) ≠ 0)⟩
  rw [ended]
  exact List.mem_singleton_self _

end ModelOS.BlockChain
