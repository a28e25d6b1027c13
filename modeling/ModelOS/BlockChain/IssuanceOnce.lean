import ModelOS.BlockChain.BountyClaims
import ModelOS.BlockChain.Money
import ModelOS.BlockChain.TxIds

namespace ModelOS.BlockChain

open Data Wire

/-! The authority's signature covers the first input, and no output is spent twice on a
chain. -/

structure Authorisation where
  amount : UInt64
  destination : FixedBytes 32
  firstInput : OutPoint
deriving DecidableEq

def Authorisation.message (authorisation : Authorisation) : Bytes :=
  inferenceGoMessage ⟨authorisation.amount, authorisation.destination, .zero 64⟩
    authorisation.firstInput

structure Issuance where
  authorisation : Authorisation
  signature : FixedBytes 64
deriving DecidableEq

def issuanceOf (tx : MsgTx) : Option Issuance :=
  match extractInferenceGoPayload tx, tx.txIn.head? with
  | .ok payload, some txIn =>
    some ⟨⟨payload.amount, payload.destination, txIn.previousOutPoint⟩, payload.signature⟩
  | _, _ => none

def issuances (node : BlockNode) : List Issuance :=
  (chainTxs node).filterMap fun (_, tx) => issuanceOf tx

def authorisationMessages (node : BlockNode) (signed : Finset Authorisation) : Set Bytes :=
  {message | ∃ authorisation,
    (authorisation ∈ signed ∨ authorisation ∈ (issuances node).map Issuance.authorisation) ∧
    message = authorisation.message}

/-- The signatures that verify under the authority's key are on its own
authorisations. -/
def Unforgeable (inference : InferenceRules) (network : UInt32)
    (signed : Finset Authorisation) : Prop :=
  ∀ key signature message,
    inference.schnorr.parsePubKey (inferenceGoAuthority network).bytes = some key →
      inference.schnorr.verify signature message key = true → ∃ authorisation ∈ signed,
          message = (inference.sha3 authorisation.message).bytes

theorem Authorisation.message_injective {first second : Authorisation}
    (same : first.message = second.message) : first = second := by
  simp only [Authorisation.message, inferenceGoMessage, InferenceGoPayload.signedBytes,
    List.append_assoc] at same
  obtain ⟨_, same⟩ := List.append_inj same rfl
  obtain ⟨_, same⟩ := List.append_inj same rfl
  obtain ⟨amount, same⟩ := List.append_inj same (by simp)
  obtain ⟨destination, same⟩ := List.append_inj same (by simp)
  obtain ⟨hash, index⟩ := List.append_inj same (by simp)
  have amounts := leBytes_injective first.amount.toNat_lt second.amount.toNat_lt amount
  have indexes := leBytes_injective first.firstInput.index.toNat_lt
    second.firstInput.index.toNat_lt index
  obtain ⟨firstAmount, firstDestination, ⟨firstHash, firstIndex⟩⟩ := first
  obtain ⟨secondAmount, secondDestination, ⟨secondHash, secondIndex⟩⟩ := second
  rw [Authorisation.mk.injEq, OutPoint.mk.injEq]
  exact ⟨UInt64.toNat_inj.mp amounts, FixedBytes.ext destination,
    FixedBytes.ext hash, UInt32.toNat_inj.mp indexes⟩

theorem issuanceOf_eq_some {issuance : Issuance}
    (isIssuance : issuanceOf tx = some issuance) :
    ∃ payload, extractInferenceGoPayload tx = .ok payload ∧
      tx.txIn.head?.map TxIn.previousOutPoint = some issuance.authorisation.firstInput ∧
      payload = ⟨issuance.authorisation.amount, issuance.authorisation.destination,
        issuance.signature⟩ := by
  rw [issuanceOf] at isIssuance
  split at isIssuance
  · next payload txIn extracted isHead =>
    cases isIssuance
    rw [isHead]
    exact ⟨payload, extracted, rfl, rfl⟩
  · cases isIssuance

theorem authorised_of_checkInferenceGoIssuance
    {issuance : Issuance} (isIssuance : issuanceOf tx = some issuance)
    (checked : checkInferenceGoIssuance inference network tx height = .ok issued) :
    isCoinBaseTx tx = false ∧ ∃ key signature,
      inference.schnorr.parsePubKey (inferenceGoAuthority network).bytes = some key ∧
      inference.schnorr.verify signature
        (inference.sha3 issuance.authorisation.message).bytes key = true := by
  obtain ⟨payload, extracted, firstInput, rfl⟩ := issuanceOf_eq_some isIssuance
  rw [checkInferenceGoIssuance] at checked
  split at checked
  · next otherVersion =>
    rw [extractInferenceGoPayload, if_pos otherVersion] at extracted
    cases extracted
  · simp only [bind_eq_ok, require_eq_ok] at checked
    obtain ⟨_, _, _, notCoinBase, validated⟩ := checked
    simp only [validateInferenceGoTx, bind_eq_ok, require_eq_ok, describe_eq_ok,
      present_eq_ok, extracted, firstInput, Except.ok.injEq, Option.some.injEq,
      exists_eq_left'] at validated
    obtain ⟨_, _, _, _, _, _, key, parsed, signature, _, _, verified, _⟩ := validated
    exact ⟨by simpa using notCoinBase, key, signature, parsed, verified⟩

theorem issuedBy_eq (tx : MsgTx) (inputs : tx.txIn ≠ []) : issuedBy tx =
      ((issuanceOf tx).toList.map fun issuance =>
        (issuance.authorisation.amount.toNat : Int)).sum := by
  obtain ⟨txIn, rest, isHead⟩ := List.exists_cons_of_ne_nil inputs
  rw [issuedBy, issuanceOf, isHead]
  cases extractInferenceGoPayload tx with
  | error error => rfl
  | ok payload => simp

theorem sum_issuedBy {transactions : List MsgTx} (inputs : ∀ tx ∈ transactions, tx.txIn ≠ []) :
    (transactions.map issuedBy).sum = ((transactions.filterMap issuanceOf).map fun issuance =>
        (issuance.authorisation.amount.toNat : Int)).sum := by
  induction transactions with
  | nil => rfl
  | cons tx rest ih =>
    have others := ih fun tx member =>
      inputs tx (.tail _ member)
    rw [List.map_cons, List.sum_cons, others,
      issuedBy_eq tx (inputs tx (.head _)), List.filterMap_cons]
    cases issuanceOf tx with
    | none => simp
    | some issuance => simp

section Accepted

variable {rules : ChainRules} {inference : InferenceRules} {node parent : BlockNode}
  {block : MsgBlock}

theorem issuances_child : issuances (.child parent block) =
      issuances parent ++ block.transactions.filterMap issuanceOf := by
  rw [issuances, chainTxs, List.filterMap_append, List.filterMap_map]
  rfl

section

variable (accepted : AcceptedChain (rules.withInference inference) node)
include accepted

theorem AcceptedChain.issuance_eq :
    issuance node = ((issuances node).map
      fun issuance => (issuance.authorisation.amount.toNat : Int)).sum := by
  induction node with
  | genesis block => rfl
  | child parent block ih =>
    rw [issuance, ih accepted.below, issuances_child, List.map_append,
      List.sum_append, sum_issuedBy]
    intro tx member
    exact (accepted.fits_of_mem (.head _) member).2

theorem AcceptedChain.authorised
    (member : entry ∈ chainTxs node)
    {issuance : Issuance} (isIssuance : issuanceOf entry.2 = some issuance) :
    issuance.authorisation.firstInput ∈
        (txTransfer (rules.withInference inference).toTxRules entry.1.height entry.2).spent ∧
      ∃ key signature, inference.schnorr.parsePubKey
          (inferenceGoAuthority rules.network).bytes = some key ∧ inference.schnorr.verify signature
          (inference.sha3 issuance.authorisation.message).bytes key = true := by
  obtain ⟨listed, isListed, _, isTx⟩ := exists_mem_chainTransactions member
  obtain ⟨_, _, _, _, checked⟩ := accepted.checkConnectTransaction isListed
  rw [isTx] at checked
  simp only [BlockChain.checkConnectTransaction, bind_eq_ok, describe_eq_ok]
    at checked
  obtain ⟨issued, issues, _⟩ := checked
  obtain ⟨notCoinBase, signed⟩ := authorised_of_checkInferenceGoIssuance isIssuance issues
  refine ⟨?_, signed⟩
  obtain ⟨_, _, firstInput, _⟩ := issuanceOf_eq_some isIssuance
  rw [← List.head?_map] at firstInput
  rw [txTransfer, notCoinBase]
  exact List.mem_of_head? firstInput

theorem AcceptedChain.nodup_firstInput (context : InContext (rules.withInference inference) node)
    (inOrder : ChainInOrder (rules.withInference inference) node)
    (messages : Set.InjOn rules.sha256d (txMessages node)) :
    ((issuances node).map fun issuance =>
      issuance.authorisation.firstInput).Nodup := by
  have disjoint := (accepted.history context messages inOrder).disjoint_spent
  rw [chainHistory, List.pairwise_map] at disjoint
  rw [List.Nodup, List.pairwise_map, issuances, List.pairwise_filterMap]
  refine disjoint.imp_of_mem ?_
  intro first second firstMember secondMember apart firstIssuance isFirst
    secondIssuance isSecond same
  have firstSpent := (accepted.authorised firstMember isFirst).1
  have secondSpent := (accepted.authorised secondMember isSecond).1
  rw [same] at firstSpent
  exact apart firstSpent secondSpent

end

theorem AcceptedChain.authorisation_mem
    (accepted : AcceptedChain (rules.withInference inference) node)
    (unforgeable : Unforgeable inference rules.network signed) (digests : Set.InjOn inference.sha3
      (authorisationMessages node signed)) :
    ∀ issuance ∈ issuances node,
      issuance.authorisation ∈ signed := by
  intro issuance member
  obtain ⟨entry, listed, isIssuance⟩ := List.mem_filterMap.mp member
  obtain ⟨_, key, signature, parsed, verified⟩ := accepted.authorised listed isIssuance
  obtain ⟨authorisation, isSigned, digest⟩ := unforgeable key signature _ parsed verified
  have same := digests ⟨_, .inr (List.mem_map_of_mem member), rfl⟩
    ⟨authorisation, .inl isSigned, rfl⟩ (FixedBytes.ext digest)
  rw [Authorisation.message_injective same]
  exact isSigned

end Accepted

namespace ForwardIssue

open SimNetExample (genesisBlock powLimitBits withHeader)
open TwoBlocks (payout)

/-- A hash function for chains that are too long to be listed: the last 32 bytes,
which are the proof commitment of a header and tell the transactions apart. -/
def lastBytes (message : Bytes) : Hash :=
  .copy 32 (message.drop (message.length - 32))

theorem lastBytes_append (front : Bytes) (last : FixedBytes 32) :
    lastBytes (front ++ last.bytes) = last := by
  rw [lastBytes, List.length_append, last.length_bytes, Nat.add_sub_cancel,
    List.drop_left, FixedBytes.copy_bytes]

def numbered (number : Nat) : Hash :=
  .copy 32 (leBytes 32 number)

theorem numbered_injective (firstBound : first < 256 ^ 32)
    (secondBound : second < 256 ^ 32) (same : numbered first = numbered second) :
    first = second := by
  have bytes := congrArg FixedBytes.bytes same
  rw [numbered, numbered, FixedBytes.bytes_copy _ (length_leBytes _ _),
    FixedBytes.bytes_copy _ (length_leBytes _ _)] at bytes
  exact leBytes_injective firstBound secondBound bytes

def networkRules : ChainRules :=
  committingRules { SimNetExample.rules with
    coinbaseMaturity := 1, sha256d := lastBytes, genesisHash := .zero 32 }

def block (number : Nat) (transactions : List MsgTx) : MsgBlock :=
  withHeader {
    version := 1
    prevBlock := numbered (number - 1)
    merkleRoot := networkRules.calcMerkleRoot transactions
    timestamp := 1776675600 + UInt32.ofNat number
    bits := powLimitBits
    proofCommitment := numbered number } transactions

theorem hash_block (parent : BlockNode) (number : Nat) (transactions : List MsgTx) :
    (BlockNode.child parent (block number transactions)).hash lastBytes = numbered number :=
  lastBytes_append _ _

def coinbase (txOut : TxOut) : MsgTx where
  version := 1
  txIn := [⟨⟨.zero 32, 0xffffffff⟩, [0, 0], [], 0xffffffff⟩]
  txOut := [txOut]
  lockTime := 0

def burn : MsgTx :=
  coinbase ⟨0, [0x6a, 0x20] ++ List.replicate 32 0x33⟩

def mint : MsgTx :=
  coinbase ⟨1000000, payout⟩

def mintTxid : Hash :=
  .ofNat 32 0xf791b26a84e7586c28cec7cb61202ed3d01944d832500f363782d67500000000

def transfer : MsgTx where
  version := 1
  txIn := [⟨⟨mintTxid, 0⟩, [], [[0x51], [0xc1]], 0xffffffff⟩]
  txOut := [⟨1000000, payout⟩]
  lockTime := 2

def firstInput : OutPoint :=
  ⟨.ofNat 32 0xf791b26a84e7586c28cec7cb61202ed3d01944d832500f363782d67502000000, 0⟩

def destination : FixedBytes 32 :=
  .fill 32 0x22

def signature : FixedBytes 64 :=
  .fill 64 0x44

def digest : FixedBytes 32 :=
  .ofNat 32 0x603c8f7d8762d4b102aae4e454526019caaf1e32be2150698b6a539fef5beeaa

def payload : InferenceGoPayload :=
  ⟨500000, destination, signature⟩

def issueTx (lockTime : UInt32) : MsgTx where
  version := 5
  txIn := [⟨firstInput, [], [[0x51], [0xc1]], 0xffffffff⟩]
  txOut := [⟨0, inferenceGoOpReturnPrefix ++ payload.serialise⟩,
    ⟨1500000, inferenceGoP2TRScript destination⟩]
  lockTime := lockTime

def inferenceRules : InferenceRules :=
  SimNetBounties.inference [(inferenceGoMessage payload firstInput, digest)]
    (.listed [(signature.bytes, digest.bytes, inferenceGoRegtestAuthority.bytes)]
      (by decide +kernel))

def rules : ChainRules :=
  networkRules.withInference inferenceRules

def quiet : Nat → BlockNode
  | 0 => .genesis genesisBlock
  | number + 1 => .child (quiet number) (block (number + 1) [burn])

theorem height_quiet (number : Nat) : (quiet number).height = Int32.ofNat number := by
  induction number with
  | zero => rfl
  | succ number ih =>
    rw [quiet, BlockNode.height, ih, Int32.ofNat_add]
    rfl

theorem sane_burn (number : Nat) :
    checkBlockSanity rules (block number [burn]) 1776675700 .none = .ok () := by
  have sane : checkBlockSanity rules (block 0 [burn]) 1776675700 .none = .ok () := by
    decide +kernel
  exact sane

theorem checkInferenceBountySpends_eq_ok
    (plain : ∀ txIn ∈ tx.txIn, ∀ entry, entries txIn.previousOutPoint = some entry →
      parseInferenceBountyScript entry.pkScript = none) :
    rules.checkInferenceBountySpends tx node entries = .ok () := by
  refine forM_eq_ok.mpr ?_
  intro txIn member
  rw [checkInferenceBountyInput]
  split
  · rfl
  · next entry held =>
    rw [plain txIn member entry held]

/-- The transactions of a block without fees and bounties, as the loop connects them. -/
def connectsPlainly (height : Int32) : UtxoEntries → List MsgTx → Option UtxoEntries
  | entries, [] => some entries
  | entries, tx :: rest => do
    let issued ← (checkInferenceGoIssuance inferenceRules rules.network tx height).toOption
    let fee ← (checkTransactionInputsWithIssuance rules tx height entries issued).toOption
    let _ ← (connectTransaction rules.toTxRules .view entries tx height).2.toOption
    if fee = 0 ∧ ∀ txIn ∈ tx.txIn, ((entries txIn.previousOutPoint).bind fun entry =>
        parseInferenceBountyScript entry.pkScript) = none then
      connectsPlainly height (connectTransaction rules.toTxRules .view entries tx height).1 rest
    else none

theorem foldlM_of_connectsPlainly {node : BlockNode} {transactions : List MsgTx}
    {entries after : UtxoEntries}
    (connected : connectsPlainly node.height entries transactions = some after) :
    transactions.foldlM (checkConnectTransaction rules node) (entries, 0) = .ok (after, 0) := by
  induction transactions generalizing entries with
  | nil =>
    cases connected
    rfl
  | cons tx rest ih =>
    simp only [connectsPlainly, Option.bind_eq_bind, Option.bind_eq_some_iff,
      Option.ite_none_right_eq_some] at connected
    obtain ⟨issued, issues, _, spends, stxos, connected, ⟨rfl, plain⟩, others⟩ := connected
    have bounties : rules.checkInferenceBountySpends tx node entries = .ok () :=
      checkInferenceBountySpends_eq_ok fun txIn member entry held => by
        simpa [held] using plain txIn member
    rw [List.foldlM_cons, bind_eq_ok]
    refine ⟨_, ?_, ih others⟩
    simp only [checkConnectTransaction, bind_eq_ok, describe_eq_ok, require_eq_ok, pure_eq_ok,
      Prod.mk.injEq]
    exact ⟨issued, eq_ok_of_toOption issues, 0, eq_ok_of_toOption spends, (), bounties, (),
      by decide, stxos, eq_ok_of_toOption connected, trivial, rfl⟩

def connectsBlock (height : Int32) (entries : UtxoEntries) (transactions : List MsgTx) :
    Option UtxoEntries :=
  if ∀ tx ∈ transactions, ∀ output ∈ txOutputs rules.toTxRules tx,
      entries.unspent output.1 = none then
    connectsPlainly height (fetchInputUtxos rules.toTxRules entries transactions height)
      transactions
  else none

theorem chainView_block {parent : BlockNode} {number : Nat} {transactions : List MsgTx}
    {entries after : UtxoEntries} (bound : number < 2 ^ 32)
    (shows : ChainView rules parent ⟨entries, numbered number⟩)
    (sane : checkBlockSanity rules (block (number + 1) transactions) 1776675700 .none = .ok ())
    (connected : connectsBlock (parent.height + 1) entries transactions = some after)
    (pays : ¬ ((transactions.head?.map MsgTx.txOut).getD []).foldl
      (fun total txOut => total + txOut.value) 0 > rules.calcBlockSubsidy (parent.height + 1) + 0) :
    ChainView rules (.child parent (block (number + 1) transactions))
      ⟨after, numbered (number + 1)⟩ := by
  rw [connectsBlock, Option.ite_none_right_eq_some] at connected
  refine shows.child sane ?_
  rw [← hash_block parent (number + 1) transactions]
  refine checkConnectBlock_eq_ok ?_ rfl (checkBIP0030_eq_ok connected.1)
    (foldlM_of_connectsPlainly connected.2) pays (fun _ _ => rfl) rfl
  change (BlockNode.child parent (block (number + 1) transactions)).hash lastBytes ≠ numbered 0
  rw [hash_block]
  intro same
  exact absurd (numbered_injective (by omega) (by omega) same) (Nat.succ_ne_zero _)

theorem connectsBlock_burn (height : Int32) :
    connectsBlock height (fun _ => none) [burn] = some fun _ => none := by
  have unspendable : spendableOutputs rules.toTxRules burn = [] := by
    decide +kernel
  have connected : connectTransaction rules.toTxRules .view (fun _ => none) burn height =
      (fun _ => none, .ok []) := by
    rw [connectTransaction, if_pos (by decide), addTxOuts, unspendable]
    rfl
  have fresh : ∀ tx ∈ [burn], ∀ output ∈ txOutputs rules.toTxRules tx,
      UtxoEntries.unspent (fun _ => none) output.1 = none := fun _ _ _ _ => rfl
  rw [connectsBlock, if_pos fresh, fetchInputUtxos_singleton, connectsPlainly, connected]
  rfl

theorem quiet_view (number : Nat) (bound : number < 2 ^ 32) :
    ChainView rules (quiet number) ⟨fun _ => none, numbered number⟩ := by
  induction number with
  | zero =>
    have genesis : (BlockNode.genesis genesisBlock).hash lastBytes = .zero 32 ∧
        numbered 0 = .zero 32 := by
      decide +kernel
    exact ⟨.root genesis.1, genesis.2.trans genesis.1.symm, rfl⟩
  | succ number ih =>
    refine chainView_block (by omega) (ih (by omega)) (sane_burn (number + 1))
      (connectsBlock_burn _) ?_
    have subsidy := (calcBlockSubsidy_range inferenceRules.targetTimePerBlock
      ((quiet number).height + 1)).1
    rw [gt_iff_lt, Int64.lt_iff_toInt_lt, Int64.add_zero, not_lt]
    exact subsidy

def minted : BlockNode :=
  .child (quiet 36437) (block 36438 [mint])

def issues : List MsgTx :=
  [burn, issueTx 0, transfer, issueTx 1]

def issued : BlockNode :=
  .child minted (block 36439 issues)

theorem accepted : AcceptedChain rules issued := by
  have connects : ((connectsBlock 36438 (fun _ => none) [mint]).bind fun entries =>
      connectsBlock 36439 entries issues).isSome = true := by
    decide +kernel
  obtain ⟨after, connects⟩ := Option.isSome_iff_exists.mp connects
  obtain ⟨entries, connectsMint, connectsIssues⟩ := Option.bind_eq_some_iff.mp connects
  have height : (quiet 36437).height + 1 = 36438 := by
    rw [height_quiet]
    decide
  have shows : ChainView rules minted ⟨entries, numbered 36438⟩ := by
    refine chainView_block (by decide) (quiet_view 36437 (by decide)) (by decide) ?_ ?_
    · rw [height]
      exact connectsMint
    · rw [height]
      decide
  have height : minted.height + 1 = 36439 := by
    rw [minted, BlockNode.height, height]
    decide
  have shows : ChainView rules issued ⟨after, numbered 36439⟩ := by
    refine chainView_block (by decide) shows (by decide +kernel) ?_ ?_
    · rw [height]
      exact connectsIssues
    · rw [height]
      decide
  exact shows.accepted

def usedTwice : Issuance :=
  ⟨⟨500000, destination, firstInput⟩, signature⟩

theorem issuances_issued : issuances issued = [usedTwice, usedTwice] := by
  have quietly : ∀ number, issuances (quiet number) = [] := by
    intro number
    induction number with
    | zero => rfl
    | succ number ih =>
      rw [quiet, issuances_child, ih]
      rfl
  have issued : [mint].filterMap issuanceOf = [] ∧
      issues.filterMap issuanceOf = [usedTwice, usedTwice] := by
    decide +kernel
  rw [ForwardIssue.issued, issuances_child, minted, issuances_child, quietly]
  change ([] ++ [mint].filterMap issuanceOf) ++ issues.filterMap issuanceOf = _
  rw [issued.1, issued.2]
  rfl

theorem mem_of_mem_chainTxs (number : Nat) :
    ∀ entry ∈ chainTxs (quiet number), entry.2 = burn := by
  induction number with
  | zero => rintro _ ⟨⟩
  | succ number ih =>
    intro entry member
    rcases List.mem_append.mp member with below | here
    · exact ih entry below
    · rw [List.mem_singleton.mp here]

theorem injOn_lastBytes : Set.InjOn lastBytes (txMessages issued) := by
  have listed : ∀ entry ∈ chainTxs issued, entry.2 ∈ mint :: issues := by
    intro entry member
    rcases List.mem_append.mp member with below | here
    · rcases List.mem_append.mp below with below | here
      · rw [mem_of_mem_chainTxs _ entry below]
        exact .tail _ (.head _)
      · rw [List.mem_singleton.mp here]
        exact .head _
    · obtain ⟨tx, inBlock, rfl⟩ := List.mem_map.mp here
      exact .tail _ inBlock
  have distinct : ((mint :: issues).map fun tx => lastBytes tx.serializeNoWitness).Nodup := by
    decide +kernel
  rintro _ ⟨first, firstMember, rfl⟩ _ ⟨second, secondMember, rfl⟩ hashes
  rw [List.inj_on_of_nodup_map distinct (listed first firstMember)
    (listed second secondMember) hashes]

end ForwardIssue

end ModelOS.BlockChain
