import ModelOS.BlockChain.AuxPow

namespace ModelOS.BlockChain

open Data Wire ZkPow

/-! A coinbase branch says itself at which leaf of the parent's transaction tree it
starts. -/

/-- Every message that is double-hashed while the data are verified. -/
def hashedMessages (sha256d : Bytes → Hash) (auxPow : AuxPowData) : List Bytes :=
  auxPow.pearlHeader.bytes :: (leBytes 4 certificateVersionZK ++ auxPow.pearlPublicData.bytes) ::
    auxPow.pearlCoinbaseTx ::
    MerkleBranch.messages sha256d combined (sha256d auxPow.pearlCoinbaseTx) auxPow.branch

/-- Two accepted data that carry one parent header, with branches that turn as
the two lists say, name the same state. -/
def CommitsToOneState (firstTurns secondTurns : List Bool) : Prop :=
  ∀ (sha256d : Bytes → Hash) (verifier : ProofVerifier)
    (first second : AuxPowData) (firstHeight secondHeight : Int32)
    (firstState secondState : Hash) (firstTarget secondTarget : Int)
    (network : UInt32),
    MerkleBranch.directions first.branch = firstTurns →
    MerkleBranch.directions second.branch = secondTurns →
    first.pearlHeader = second.pearlHeader →
    Set.InjOn sha256d {message | message ∈ hashedMessages sha256d first ∨
      message ∈ hashedMessages sha256d second} →
    verifyAuxPow sha256d verifier (some first) firstHeight firstState firstTarget network = .ok () →
    verifyAuxPow sha256d verifier (some second) secondHeight secondState
      secondTarget network = .ok () →
    firstState = secondState

theorem commitsToOneState_same_turns (turns : List Bool) : CommitsToOneState turns turns := by
  intro sha256d verifier first second firstHeight secondHeight firstState
    secondState firstTarget secondTarget network firstTurns secondTurns
    sameHeader collisionFree firstAccepted secondAccepted
  have firstAccepts := verifyAuxPow_ok.mp firstAccepted
  have secondAccepts := verifyAuxPow_ok.mp secondAccepted
  have sameRoot := firstAccepts.root
  rw [show first.pearlMerkleRoot = second.pearlMerkleRoot by
      simp [AuxPowData.pearlMerkleRoot, sameHeader],
    ← secondAccepts.root, verifyCoinbaseMerkleRoot_eq_climb,
    verifyCoinbaseMerkleRoot_eq_climb] at sameRoot
  have sameTxid : sha256d first.pearlCoinbaseTx = sha256d second.pearlCoinbaseTx :=
    MerkleBranch.climb_injective combined_injective collisionFree
      (fun message member => .inl (by simp [hashedMessages, member]))
      (fun message member => .inr (by simp [hashedMessages, member]))
      (firstTurns.trans secondTurns.symm) sameRoot
  have sameCoinbase : first.pearlCoinbaseTx = second.pearlCoinbaseTx :=
    collisionFree (.inl (by simp [hashedMessages])) (.inr (by simp [hashedMessages])) sameTxid
  have firstCommitted := firstAccepts.committed
  rw [sameCoinbase, firstAccepts.stateHash] at firstCommitted
  have secondCommitted := secondAccepts.committed
  rw [secondAccepts.stateHash] at secondCommitted
  exact containsModelosCommitment_unique firstCommitted secondCommitted

/-! The converse: for any two positions there is a collision-free hash and a parent
block that opens to two states. A digest holds a counter, and a node counts one more
than its higher child. -/

namespace Forgery

/-- The digest of a counter; marked digests end in the merged-mining marker. -/
def digest (marked : Bool) (count : Nat) : Hash :=
  ⟨List.replicate 24 0 ++ leBytes 4 count ++ (if marked then auxPowMagic else List.replicate 4 0),
    by cases marked <;> simp [auxPowMagic]⟩

def counter (hash : Hash) : Nat :=
  leNat (slice hash.bytes 24 4)

variable {count : Nat} {marked : Bool}

theorem counter_digest (marked : Bool) (bound : count < 2 ^ 32) :
    counter (digest marked count) = count := by
  simp only [counter, digest, slice, List.append_assoc]
  rw [List.drop_append_of_le_length (by simp)]
  simp [leNat_leBytes_of_lt (show count < 256 ^ 4 by omega)]

theorem counter_zero : counter (.zero 32) = 0 := by decide

def firstState : Hash := .zero 32

def secondState : Hash := .fill 32 0xff

def firstCoinbase : Bytes := auxPowMagic ++ firstState.bytes

def secondCoinbase : Bytes := auxPowMagic ++ secondState.bytes

/-- The first coinbase counts 1, the second 40 and the two other messages of
the certificate 200 and 201. -/
def hash (marked : Bool) (message : Bytes) : Hash :=
  if message.length = 64 then
    digest marked (1 + max (counter (.copy 32 (message.take 32)))
      (counter (.copy 32 (message.drop 32))))
  else if message = firstCoinbase then digest marked 1
  else if message = secondCoinbase then digest marked 40
  else if message.length = 168 then digest marked 200
  else digest marked 201

theorem hash_combined (marked : Bool) (left right : Hash) : hash marked (combined left right) =
      digest marked (1 + max (counter left) (counter right)) := by
  simp [hash, combined]

def plain (turns : List Bool) : List (Hash × Bool) :=
  turns.map fun turn => (.zero 32, turn)

@[simp] theorem directions_plain (turns : List Bool) :
    MerkleBranch.directions (plain turns) = turns := by
  simp [MerkleBranch.directions, plain, Function.comp_def]

theorem hash_parentMessage (marked : Bool) (current sibling : Hash) (turn : Bool) :
    hash marked (MerkleBranch.parentMessage combined current sibling turn) =
      digest marked (1 + max (counter current) (counter sibling)) := by
  cases turn with
  | true =>
    simp only [MerkleBranch.parentMessage, if_true]
    rw [hash_combined, Nat.max_comm]
  | false =>
    simp only [MerkleBranch.parentMessage, Bool.false_eq_true, if_false]
    rw [hash_combined]

theorem hash_plainMessage (marked turn : Bool) (bound : count < 2 ^ 32) :
    hash marked (MerkleBranch.parentMessage combined (digest marked count)
      (.zero 32) turn) = digest marked (count + 1) := by
  rw [hash_parentMessage, counter_digest marked bound, counter_zero, Nat.max_zero, Nat.add_comm]

theorem climb_plain (marked : Bool) (turns : List Bool) (bound : count + turns.length < 2 ^ 32) :
    MerkleBranch.climb (hash marked) combined (digest marked count)
      (plain turns) = digest marked (count + turns.length) := by
  induction turns generalizing count with
  | nil => rfl
  | cons turn rest ih =>
    simp only [List.length_cons] at bound
    change MerkleBranch.climb (hash marked) combined
      (hash marked (MerkleBranch.parentMessage combined
        (digest marked count) (.zero 32) turn)) (plain rest) = _
    rw [hash_plainMessage marked turn (by omega), ih (by omega)]
    rw [List.length_cons, Nat.add_assoc, Nat.add_comm 1]

/-- The messages count from `low` up to, but not including, `high`, and no two
of them share a digest. -/
structure Numbered (marked : Bool) (messages : List Bytes) (low high : Nat) : Prop where
  low_le : ∀ message ∈ messages, low ≤ counter (hash marked message)
  lt_high : ∀ message ∈ messages, counter (hash marked message) < high
  injective : ∀ first ∈ messages, ∀ second ∈ messages,
    hash marked first = hash marked second → first = second

theorem Numbered.single (counted : hash marked message = digest marked count)
    (bound : count < 2 ^ 32) : Numbered marked [message] count (count + 1) := by
  have counter_eq : counter (hash marked message) = count := by
    rw [counted, counter_digest marked bound]
  constructor
  · simp [counter_eq]
  · simp [counter_eq]
  · simp

theorem Numbered.raise
    (numbered : Numbered marked messages low high) (le_higher : high ≤ higher) :
    Numbered marked messages low higher :=
  { numbered with
    lt_high := fun message member =>
      (numbered.lt_high message member).trans_le le_higher }

theorem Numbered.append
    (lowerNumbered : Numbered marked lower low middle)
    (upperNumbered : Numbered marked upper middle' high) (low_le : low ≤ middle')
    (apart : middle ≤ middle') (le_high : middle ≤ high) :
    Numbered marked (lower ++ upper) low high := by
  constructor
  · intro message member
    rcases List.mem_append.mp member with inLower | inUpper
    · exact lowerNumbered.low_le message inLower
    · exact low_le.trans (upperNumbered.low_le message inUpper)
  · intro message member
    rcases List.mem_append.mp member with inLower | inUpper
    · exact (lowerNumbered.lt_high message inLower).trans_le le_high
    · exact upperNumbered.lt_high message inUpper
  · intro first firstMember second secondMember equality
    have counters := congrArg counter equality
    rcases List.mem_append.mp firstMember with firstLower | firstUpper
    · rcases List.mem_append.mp secondMember with secondLower | secondUpper
      · exact lowerNumbered.injective first firstLower second secondLower equality
      · have firstBound := lowerNumbered.lt_high first firstLower
        have secondBound := upperNumbered.low_le second secondUpper
        omega
    · rcases List.mem_append.mp secondMember with secondLower | secondUpper
      · have firstBound := upperNumbered.low_le first firstUpper
        have secondBound := lowerNumbered.lt_high second secondLower
        omega
      · exact upperNumbered.injective first firstUpper second secondUpper equality

theorem Numbered.plain (marked : Bool) (turns : List Bool) (bound : count + turns.length < 2 ^ 32) :
    Numbered marked
      (MerkleBranch.messages (hash marked) combined (digest marked count) (Forgery.plain turns))
      (count + 1) (count + 1 + turns.length) := by
  induction turns generalizing count with
  | nil => constructor <;> simp [Forgery.plain, MerkleBranch.messages]
  | cons turn rest ih =>
    simp only [List.length_cons] at bound
    have counted := hash_plainMessage marked turn (show count < 2 ^ 32 by omega)
    have head := Numbered.single counted (by omega)
    have tail := @ih (count + 1) (by omega)
    rw [← counted] at tail
    have both := head.append tail (by omega) (by omega) (by omega)
    rw [List.length_cons, show count + 1 + (rest.length + 1) = count + 1 + 1 + rest.length by omega]
    exact both

def commitmentMessage : Bytes :=
  leBytes 4 certificateVersionZK ++ (FixedBytes.zero publicDataSize).bytes

def pearlHeader (marked : Bool) (root : Hash) : BlockHeader where
  version := 0
  prevBlock := .zero 32
  merkleRoot := root
  timestamp := 0
  bits := 0
  proofCommitment := hash marked commitmentMessage

def forged (marked : Bool) (root state : Hash) (coinbase : Bytes)
    (branch : List (Hash × Bool)) : AuxPowData where
  pearlHeader := ⟨writeBlockHeader (pearlHeader marked root), length_writeBlockHeader _⟩
  modelOSStateHash := state
  pearlHeight := 1
  pearlPublicData := .zero publicDataSize
  pearlProofData := [1]
  pearlCoinbaseTx := coinbase
  coinbaseBranch := branch.map fun step => ⟨step.1, step.2⟩

def acceptAll : ProofVerifier where
  verifyZkProofV2 _ _ _ := (0, "")
  verifyZkProofAuxpowWithNbits _ _ _ _ := (0, "")

@[simp] theorem branch_forged (marked : Bool) (root state : Hash)
    (coinbase : Bytes) (branch : List (Hash × Bool)) :
    (forged marked root state coinbase branch).branch = branch := by
  simp [forged, AuxPowData.branch, Function.comp_def]

theorem pearlMerkleRoot_forged (marked : Bool) (root state : Hash)
    (coinbase : Bytes) (branch : List (Hash × Bool)) :
    (forged marked root state coinbase branch).pearlMerkleRoot = root := by
  have read := readBlockHeader_writeBlockHeader (pearlHeader marked root)
  have short : ¬ (writeBlockHeader (pearlHeader marked root)).length <
      maxBlockHeaderPayload := by simp
  rw [readBlockHeader, if_neg short] at read
  exact congrArg BlockHeader.merkleRoot (Option.some.inj read)

theorem forged_accepted
    (committed : (containsModelosCommitment coinbase state).isSome = true)
    (climbs : MerkleBranch.climb (hash marked) combined (hash marked coinbase) branch = root) :
    verifyAuxPow (hash marked) acceptAll
      (some (forged marked root state coinbase branch)) 0 state 0 0 = .ok () := by
  rw [verifyAuxPow_ok]
  have height : (0 : Int32) < 1 := by decide
  refine ⟨by decide, ⟨pearlHeader marked root, rfl, ?_⟩, rfl, height, committed, ?_⟩
  · rw [verifyZKCertificateInner_ok]
    refine ⟨rfl, ?_, by simp [pearlCertificate, forged], rfl⟩
    simp only [pearlCertificate, ZKCertificate.proofCommitment,
      ZKCertificate.commitmentMessage, forged, pearlHeader, commitmentMessage]
  · rw [verifyCoinbaseMerkleRoot_eq_climb, branch_forged, pearlMerkleRoot_forged]
    exact climbs

private theorem ne_of_length_ne {first second : Bytes} {size : Nat}
    (length : first.length = size) (other : second.length ≠ size) : first ≠ second := by
  intro equality
  exact other (equality ▸ length)

theorem hash_commitmentMessage (marked : Bool) :
    hash marked commitmentMessage = digest marked 200 := by
  have length : commitmentMessage.length = 168 := by
    simp [commitmentMessage, publicDataSize]
  have notFirst : commitmentMessage ≠ firstCoinbase :=
    ne_of_length_ne length (by simp [firstCoinbase, auxPowMagic])
  have notSecond : commitmentMessage ≠ secondCoinbase :=
    ne_of_length_ne length (by simp [secondCoinbase, auxPowMagic])
  simp [hash, length, notFirst, notSecond]

theorem hash_header (marked : Bool) (root : Hash) :
    hash marked (writeBlockHeader (pearlHeader marked root)) = digest marked 201 := by
  have length : (writeBlockHeader (pearlHeader marked root)).length = 108 :=
    length_writeBlockHeader _
  have notFirst : writeBlockHeader (pearlHeader marked root) ≠ firstCoinbase :=
    ne_of_length_ne length (by simp [firstCoinbase, auxPowMagic])
  have notSecond : writeBlockHeader (pearlHeader marked root) ≠ secondCoinbase :=
    ne_of_length_ne length (by simp [secondCoinbase, auxPowMagic])
  simp [hash, length, notFirst, notSecond]

theorem refutes (branch branch' : List (Hash × Bool))
    (committed : (containsModelosCommitment coinbase state).isSome = true)
    (committed' : (containsModelosCommitment coinbase' state').isSome = true)
    (climbs : MerkleBranch.climb (hash marked) combined (hash marked coinbase) branch = root)
    (climbs' : MerkleBranch.climb (hash marked) combined (hash marked coinbase') branch' = root)
    (states : state ≠ state') (numbered : Numbered marked messages low 200) (low_le : low ≤ 200)
    (listed : ∀ message, message = coinbase ∨ message ∈ MerkleBranch.messages
      (hash marked) combined (hash marked coinbase) branch → message ∈ messages)
    (listed' : ∀ message, message = coinbase' ∨ message ∈ MerkleBranch.messages
      (hash marked) combined (hash marked coinbase') branch' → message ∈ messages) :
    ¬ CommitsToOneState (MerkleBranch.directions branch) (MerkleBranch.directions branch') := by
  intro commits
  apply states
  let first := forged marked root state coinbase branch
  let second := forged marked root state' coinbase' branch'
  have allNumbered : Numbered marked (messages ++ ([commitmentMessage] ++
      [writeBlockHeader (pearlHeader marked root)])) low 202 := by
    have certificate := (Numbered.single (hash_commitmentMessage marked) (by omega)).append
        (Numbered.single (hash_header marked root) (by omega)) (by omega) (by omega) (by omega)
    exact numbered.append certificate low_le (by omega) (by omega)
  refine commits (hash marked) acceptAll first second 0 0 state state' 0 0 0
    (by simp [first]) (by simp [second]) rfl ?_
    (forged_accepted committed climbs) (forged_accepted committed' climbs')
  intro message member message' member' equality
  have inAll : ∀ message, message ∈ hashedMessages (hash marked) first ∨
      message ∈ hashedMessages (hash marked) second → message ∈ messages ++ ([commitmentMessage] ++
        [writeBlockHeader (pearlHeader marked root)]) := by
    intro message member
    simp only [hashedMessages, first, second, branch_forged, List.mem_cons] at member
    rw [List.mem_append]
    rcases member with (rfl | rfl | member) | (rfl | rfl | member)
    · right; simp [forged]
    · right; simp [forged, commitmentMessage]
    · exact .inl (listed message member)
    · right; simp [forged]
    · right; simp [forged, commitmentMessage]
    · exact .inl (listed' message member)
  exact allNumbered.injective message (inAll message member) message'
    (inAll message' member') equality

theorem hash_firstCoinbase (marked : Bool) : hash marked firstCoinbase = digest marked 1 := by
  have length : firstCoinbase.length = 36 := by simp [firstCoinbase, auxPowMagic]
  simp [hash, length]

theorem hash_secondCoinbase (marked : Bool) : hash marked secondCoinbase = digest marked 40 := by
  have length : secondCoinbase.length = 36 := by simp [secondCoinbase, auxPowMagic]
  have notFirst : secondCoinbase ≠ firstCoinbase := by decide
  simp [hash, length, notFirst]

/-- A branch that climbs plainly to one node with a chosen sibling, and plainly
on from there. -/
def through (lower upper : List Bool) (sibling : Hash) (turn : Bool) : List (Hash × Bool) :=
  plain lower ++ (sibling, turn) :: plain upper

@[simp] theorem directions_through (lower upper : List Bool) (sibling : Hash) (turn : Bool) :
    MerkleBranch.directions (through lower upper sibling turn) = lower ++ turn :: upper := by
  simp [through, MerkleBranch.directions, plain, Function.comp_def]

section Through

variable {marked turn : Bool} {lower upper : List Bool} {sibling : Hash}
  {start next : Nat} {special : Bytes}

theorem climb_through (bound : start + lower.length < 2 ^ 32)
    (isSpecial : MerkleBranch.parentMessage combined
      (digest marked (start + lower.length)) sibling turn = special)
    (counted : hash marked special = digest marked next) :
    MerkleBranch.climb (hash marked) combined (digest marked start)
        (through lower upper sibling turn) =
      MerkleBranch.climb (hash marked) combined (digest marked next) (plain upper) := by
  rw [through, MerkleBranch.climb_append, climb_plain marked lower bound,
    MerkleBranch.climb, isSpecial, counted]

theorem messages_through (bound : start + lower.length < 2 ^ 32)
    (isSpecial : MerkleBranch.parentMessage combined
      (digest marked (start + lower.length)) sibling turn = special)
    (counted : hash marked special = digest marked next) :
    MerkleBranch.messages (hash marked) combined (digest marked start)
        (through lower upper sibling turn) =
      MerkleBranch.messages (hash marked) combined (digest marked start) (plain lower) ++
        ([special] ++ MerkleBranch.messages (hash marked) combined
          (digest marked next) (plain upper)) := by
  rw [through, MerkleBranch.messages_append, climb_plain marked lower bound,
    MerkleBranch.messages, isSpecial, counted]
  rfl

theorem numbered_leaf (marked : Bool) (turns : List Bool)
    (counted : hash marked leaf = digest marked count)
    (bound : count + turns.length + 1 < 2 ^ 32) :
    Numbered marked ([leaf] ++ MerkleBranch.messages (hash marked) combined
        (digest marked count) (plain turns)) count (count + 1 + turns.length) :=
  (Numbered.single counted (by omega)).append
    (Numbered.plain marked turns (by omega)) (by omega) (by omega) (by omega)

end Through

theorem refutes_parting (lower lower' upper : List Bool) (turn : Bool)
    (depth : lower.length + 1 + upper.length ≤ maxCoinbaseBranchDepth)
    (depth' : lower'.length + 1 + upper.length ≤ maxCoinbaseBranchDepth) :
    ¬ CommitsToOneState (lower ++ turn :: upper) (lower' ++ (!turn) :: upper) := by
  simp only [maxCoinbaseBranchDepth] at depth depth'
  let left := digest false (1 + lower.length)
  let right := digest false (40 + lower'.length)
  let joint := MerkleBranch.parentMessage combined left right turn
  have jointSwapped : MerkleBranch.parentMessage combined right left (!turn) = joint := by
    cases turn <;> rfl
  have hash_joint : hash false joint = digest false (41 + lower'.length) := by
    rw [hash_parentMessage, counter_digest false (by omega),
      counter_digest false (by omega), Nat.max_eq_right (by omega)]
    congr 1
    omega
  have numbered := ((numbered_leaf false lower (hash_firstCoinbase false) (by omega)).append
      ((numbered_leaf false lower' (hash_secondCoinbase false) (by omega)).append
        (numbered_leaf false upper hash_joint (by omega)) (by omega) (by omega) (by omega))
        (by omega) (by omega) (by omega)).raise (show _ ≤ 200 by omega)
  have committed : (containsModelosCommitment firstCoinbase firstState).isSome = true := by
    decide
  have committed' : (containsModelosCommitment secondCoinbase secondState).isSome = true := by
    decide
  have refuted := refutes (through lower upper right turn)
    (through lower' upper left (!turn)) committed committed'
    (by rw [hash_firstCoinbase, climb_through (by omega) rfl hash_joint])
    (by rw [hash_secondCoinbase, climb_through (by omega) jointSwapped hash_joint])
    (by decide) numbered (by omega) (by
      intro message
      rw [hash_firstCoinbase, messages_through (by omega) rfl hash_joint]
      simp only [List.mem_append, List.mem_singleton]
      tauto)
    (by
      intro message
      rw [hash_secondCoinbase, messages_through (by omega) jointSwapped hash_joint]
      simp only [List.mem_append, List.mem_singleton]
      tauto)
  simpa only [directions_through] using refuted

/-! One position above the other: the inner node itself is shown as the coinbase. -/

def innerSibling (turn : Bool) : Hash :=
  if turn then ⟨List.replicate 28 0 ++ auxPowMagic, by simp [auxPowMagic]⟩
  else .zero 32

def innerState (turn : Bool) (count : Nat) : Hash :=
  if turn then digest false count else .zero 32

theorem innerState_ne_secondState (turn : Bool) (count : Nat) :
    innerState turn count ≠ secondState := by
  intro equality
  have heads := congrArg (fun hash : Hash => hash.bytes.head?) equality
  cases turn <;> simp [innerState, digest, secondState, FixedBytes.zero,
    FixedBytes.fill, List.replicate_succ] at heads

theorem inner_committed (turn : Bool) (height : Nat) (bound : height < 32) :
    (containsModelosCommitment (MerkleBranch.parentMessage combined (digest (!turn) (40 + height))
        (innerSibling turn) turn) (innerState turn (40 + height))).isSome = true := by
  have all : ∀ turn : Bool, ∀ height : Fin 32, (containsModelosCommitment
      (MerkleBranch.parentMessage combined (digest (!turn) (40 + height))
        (innerSibling turn) turn) (innerState turn (40 + height))).isSome = true := by
    decide
  exact all turn ⟨height, bound⟩

theorem refutes_above (lower upper : List Bool) (turn : Bool)
    (depth : lower.length + 1 + upper.length ≤ maxCoinbaseBranchDepth) :
    ¬ CommitsToOneState upper (lower ++ turn :: upper) := by
  simp only [maxCoinbaseBranchDepth] at depth
  let inner := MerkleBranch.parentMessage combined
    (digest (!turn) (40 + lower.length)) (innerSibling turn) turn
  have hash_inner : hash (!turn) inner = digest (!turn) (41 + lower.length) := by
    have siblingCounter : counter (innerSibling turn) = 0 := by
      cases turn <;> decide
    rw [hash_parentMessage, counter_digest _ (by omega), siblingCounter, Nat.max_zero]
    congr 1
    omega
  have numbered := ((numbered_leaf (!turn) lower (hash_secondCoinbase (!turn))
    (by omega)).append (numbered_leaf (!turn) upper hash_inner (by omega))
      (by omega) (by omega) (by omega)).raise (show _ ≤ 200 by omega)
  have committed' : (containsModelosCommitment secondCoinbase secondState).isSome = true := by
    decide
  have refuted := refutes (plain upper) (through lower upper (innerSibling turn) turn)
    (inner_committed turn lower.length (by omega)) committed' (by rw [hash_inner])
    (by rw [hash_secondCoinbase, climb_through (by omega) rfl hash_inner])
    (innerState_ne_secondState turn _) numbered (by omega) (by
      intro message
      rw [hash_inner]
      simp only [List.mem_append, List.mem_singleton]
      tauto)
    (by
      intro message
      rw [hash_secondCoinbase, messages_through (by omega) rfl hash_inner]
      simp only [List.mem_append, List.mem_singleton]
      tauto)
  simpa only [directions_through, directions_plain] using refuted

end Forgery

theorem CommitsToOneState.symm
    (commits : CommitsToOneState first second) : CommitsToOneState second first := by
  intro sha256d verifier auxPow auxPow' height height' state state' target
    target' network turns turns' sameHeader collisionFree accepted accepted'
  have swapped : Set.InjOn sha256d {message |
      message ∈ hashedMessages sha256d auxPow' ∨
        message ∈ hashedMessages sha256d auxPow} := by
    simpa only [or_comm] using collisionFree
  exact (commits sha256d verifier auxPow' auxPow height' height state' state
    target' target network turns' turns sameHeader.symm swapped accepted' accepted).symm

/-- Read from the root, two different positions part at some node, or one of
them lies above the other. -/
private theorem ne_cases (first second : List Bool) (ne : first ≠ second) :
    (∃ turn rest, second = first ++ turn :: rest) ∨ (∃ turn rest, first = second ++ turn :: rest) ∨
      ∃ common turn rest rest', first = common ++ turn :: rest ∧
        second = common ++ (!turn) :: rest' := by
  induction first generalizing second with
  | nil =>
    cases second with
    | nil => exact absurd rfl ne
    | cons turn rest => exact .inl ⟨turn, rest, rfl⟩
  | cons head tail ih =>
    cases second with
    | nil => exact .inr (.inl ⟨head, tail, rfl⟩)
    | cons head' tail' =>
      by_cases heads : head' = head
      · subst heads
        have tails : tail ≠ tail' := fun equality => ne (by rw [equality])
        rcases ih tail' tails with ⟨turn, rest, rfl⟩ |
          ⟨turn, rest, rfl⟩ | ⟨common, turn, rest, rest', rfl, rfl⟩
        · exact .inl ⟨turn, rest, rfl⟩
        · exact .inr (.inl ⟨turn, rest, rfl⟩)
        · exact .inr (.inr ⟨head' :: common, turn, rest, rest', rfl, rfl⟩)
      · refine .inr (.inr ⟨[], head, tail, tail', rfl, ?_⟩)
        cases head <;> cases head' <;> simp_all

/-- One parent block commits to one state for two coinbase positions if and
only if the positions are the same. -/
theorem commitsToOneState_iff_same_turns (first second : List Bool)
    (depth : first.length ≤ maxCoinbaseBranchDepth)
    (depth' : second.length ≤ maxCoinbaseBranchDepth) :
    CommitsToOneState first second ↔ first = second := by
  constructor
  · intro commits
    by_contra ne
    have reversed : first.reverse ≠ second.reverse := fun equality =>
      ne (List.reverse_injective equality)
    rcases ne_cases first.reverse second.reverse reversed with
      ⟨turn, rest, split⟩ | ⟨turn, rest, split⟩ |
      ⟨common, turn, rest, rest', split, split'⟩
    · have second_eq : second = rest.reverse ++ turn :: first := by
        rw [← List.reverse_reverse second, split]
        simp
      subst second_eq
      refine Forgery.refutes_above rest.reverse first turn ?_ commits
      simp only [List.length_append, List.length_cons] at depth'
      omega
    · have first_eq : first = rest.reverse ++ turn :: second := by
        rw [← List.reverse_reverse first, split]
        simp
      subst first_eq
      refine Forgery.refutes_above rest.reverse second turn ?_ commits.symm
      simp only [List.length_append, List.length_cons] at depth
      omega
    · have first_eq : first = rest.reverse ++ turn :: common.reverse := by
        rw [← List.reverse_reverse first, split]
        simp
      have second_eq : second = rest'.reverse ++ (!turn) :: common.reverse := by
        rw [← List.reverse_reverse second, split']
        simp
      subst first_eq second_eq
      simp only [List.length_append, List.length_cons] at depth depth'
      refine Forgery.refutes_parting rest.reverse rest'.reverse common.reverse turn ?_ ?_ commits
      · omega
      · omega
  · rintro rfl
    exact commitsToOneState_same_turns first

/-- The leftmost of four leaves, against itself and against the next one. -/
theorem leftmost_leaves_commit_to_one_state : CommitsToOneState [false, false] [false, false] ∧
    ¬ CommitsToOneState [false, false] [true, false] := by
  constructor
  · exact (commitsToOneState_iff_same_turns _ _ (by decide) (by decide)).mpr rfl
  · rw [commitsToOneState_iff_same_turns _ _ (by decide) (by decide)]
    decide

namespace TwoStatesExample

def firstState : Hash := .fill 32 0x11

def secondState : Hash := .fill 32 0x22

def firstTx : Bytes := auxPowMagic ++ firstState.bytes

def secondTx : Bytes := auxPowMagic ++ secondState.bytes

def firstTxid : Hash :=
  .ofNat 32 0x6840d6553fefc135e2cb307779101a486ac1a503c161c297d367f0365aeb218e

def secondTxid : Hash :=
  .ofNat 32 0x4fcd9b77325912bf17a8c900bda397e8698bd70b827a8be8ced315486ce3a102

def root : Hash :=
  .ofNat 32 0x29d44c370dd99bcdb5fbf14f23fdc560f6a99c1d698dc18cb555e4ac5893c1de

def pearlHeader : BlockHeader where
  version := 0x20000000
  prevBlock := .fill 32 0x55
  merkleRoot := root
  timestamp := 1700000000
  bits := 0x1d00ffff
  proofCommitment := .ofNat 32 0x226d463070c061d72a5acd6fd3486f51d9df493b1f346a41aab14ca36c297918

def pearlHash : Hash :=
  .ofNat 32 0x531004fae7f9ae63c8c3033bde8c6efd6d821acfeebe3972c2596d2808b79a59

def sha256d (message : Bytes) : Hash :=
  if message = firstTx then firstTxid
  else if message = secondTx then secondTxid
  else if message = combined firstTxid secondTxid then root
  else if message = leBytes 4 1 ++ List.replicate 164 0 then
    pearlHeader.proofCommitment
  else if message = writeBlockHeader pearlHeader then pearlHash
  else .zero 32

def firstOpening : AuxPowData where
  pearlHeader := ⟨writeBlockHeader pearlHeader, length_writeBlockHeader _⟩
  modelOSStateHash := firstState
  pearlHeight := 7
  pearlPublicData := .zero publicDataSize
  pearlProofData := [1]
  pearlCoinbaseTx := firstTx
  coinbaseBranch := [⟨secondTxid, false⟩]

def secondOpening : AuxPowData :=
  { firstOpening with
    modelOSStateHash := secondState
    pearlCoinbaseTx := secondTx
    coinbaseBranch := [⟨firstTxid, true⟩] }

theorem one_parent_two_states : firstOpening.pearlHeader = secondOpening.pearlHeader ∧
      Set.InjOn sha256d {message |
        message ∈ hashedMessages sha256d firstOpening ∨
          message ∈ hashedMessages sha256d secondOpening} ∧
      verifyAuxPow sha256d Forgery.acceptAll (some firstOpening) 1 firstState
        (compactToBig 0x1d00ffff) 0x4D444C4D = .ok () ∧
      verifyAuxPow sha256d Forgery.acceptAll (some secondOpening) 1 secondState
        (compactToBig 0x1d00ffff) 0x4D444C4D = .ok () ∧ firstState ≠ secondState := by
  refine ⟨rfl, ?_, by decide +kernel, by decide +kernel, by decide⟩
  have distinct : ∀ first ∈ hashedMessages sha256d firstOpening ++
        hashedMessages sha256d secondOpening, ∀ second ∈ hashedMessages sha256d firstOpening ++
        hashedMessages sha256d secondOpening, sha256d first = sha256d second → first = second := by
    decide +kernel
  intro first firstMember second secondMember equality
  exact distinct first (List.mem_append.mpr firstMember) second
    (List.mem_append.mpr secondMember) equality

end TwoStatesExample

end ModelOS.BlockChain
