import ModelOS.V2Transport.Connection

namespace ModelOS.V2Transport

open Data
open ModelOS.Data.Session (Runs Fails send receive check)

/-- Two honest nodes that choose so much garbage and these decoys get through, whatever
they have to say. -/
def GetsThrough (garbageLen : Nat) (decoys : List Nat) (garbageLenResponder : Nat)
    (decoysResponder : List Nat) : Prop :=
  ∀ (crypto : Crypto) (net : UInt32) (point : FixedBytes 32) (initiator responder : Node crypto),
    initiator.garbage.length = garbageLen → initiator.decoyContentLens = decoys →
    responder.garbage.length = garbageLenResponder → responder.decoyContentLens = decoysResponder →
    Honest net point initiator responder → Duplex.Completes
        (initiator.run true net (messages responder.packets).length)
        (responder.run false net (messages initiator.packets).length)
        (messages responder.packets) (messages initiator.packets)

section Side

variable {crypto : Crypto} {net : UInt32} {initiating : Bool} {secret : FixedBytes 32}
  {node other : Node crypto} {ciphers : Ciphers}

/-- The receiving half is as it was. -/
structure Ready (before after : Ciphers) : Prop where
  receiving : after.receiving = before.receiving
  recvGarbageTerm : after.recvGarbageTerm = before.recvGarbageTerm

theorem Ready.trans (earlier : Ready first second)
    (later : Ready second third) : Ready first third :=
  ⟨later.receiving.trans earlier.receiving, later.recvGarbageTerm.trans earlier.recvGarbageTerm⟩

theorem writes_v2EncPacket (contents aad : Bytes) (ignore : Bool) :
    (v2EncPacket crypto ciphers contents aad ignore).Writes (Ready ciphers ·.2) :=
  .bind (.check _) fun _ _ => .bind (.check _) fun _ _ => .bind (.send _) fun _ _ =>
    .pure ⟨rfl, rfl⟩

theorem writes_sendDecoys (aad : Bytes) (lens : List Nat) :
    (sendDecoys crypto ciphers aad lens).Writes (Ready ciphers ·.1) := by
  induction lens generalizing ciphers aad with
  | nil => exact .pure ⟨rfl, rfl⟩
  | cons contentLen lens ih =>
    refine .bind (writes_v2EncPacket _ _ _) fun encrypted ready =>
      .bind (.send _) fun _ _ => ?_
    intro input
    obtain fails | ⟨value, sent, finished, later⟩ := ih [] input
    · exact .inl fails
    · exact .inr ⟨value, sent, finished, ready.trans later⟩

theorem writes_sendVersion (garbage : Bytes) (lens : List Nat) :
    (sendVersion crypto ciphers garbage lens).Writes (Ready ciphers) := by
  refine .bind (.send _) fun _ _ => .bind (writes_sendDecoys _ _) fun decoyed ready =>
    .bind (writes_v2EncPacket _ _ _) fun encrypted later => .pure (ready.trans later)

theorem Node.run_fails_of_tooLarge (expected : Nat)
    (large : maxGarbageLen < node.garbage.length) (input : Bytes) :
    Fails (node.run initiating net expected) input := by
  refine .bind ?_ _
  rw [node.start_eq]
  refine .bind ?_ _
  rw [generateKeyAndGarbage, require, if_neg (by omega)]
  exact .check

theorem sendVersion_fails_of_long (long : maxContentLen < contentLen)
    (garbage : Bytes) (decoys : List Nat) (input : Bytes) :
    Fails (sendVersion crypto ciphers garbage (contentLen :: decoys)) input := by
  refine .after (Runs.send _ input) (.bind (.bind (.bind ?_ _) _) _)
  rw [require, if_neg (by rw [List.length_replicate]; omega)]
  exact .check

/-- `V2EncPacket` has sent the decoy before it is sent. -/
theorem sendVersion_sends_twice {contentLen : Nat} (short : contentLen ≤ maxContentLen)
    (garbage : Bytes) (decoys : List Nat) (input : Bytes) : ciphers.sendGarbageTerm ++
        (ciphers.sending.encode crypto garbage ⟨List.replicate contentLen 0, true⟩ ++
          ciphers.sending.encode crypto garbage ⟨List.replicate contentLen 0, true⟩) <+:
      (sendVersion crypto ciphers garbage (contentLen :: decoys) input).sent := by
  have encrypted := @runs_v2EncPacket crypto ciphers garbage
    ⟨List.replicate contentLen 0, true⟩ (by rw [List.length_replicate]; exact short)
  refine (Runs.send ciphers.sendGarbageTerm).prefix_bind
    (List.IsPrefix.trans ?_ (Session.sent_bind _ _ _))
  exact encrypted.prefix_bind ((Runs.send _).prefix_sent input)

variable (facing : Facing net initiating secret node other)
include facing

theorem Node.run_fails (expected : Nat)
    (stuck : ∀ ciphers, Ready (createV2Ciphers crypto secret initiating net) ciphers →
      Fails (receiveVersion crypto ciphers) input) :
    Fails (node.run initiating net expected) (other.ellswift.bytes ++ input) := by
  by_cases fits : node.garbage.length ≤ maxGarbageLen
  · refine .after (runs_start fits _) (.bind (.after (runs_exchangeKeys facing input) ?_) _)
    obtain fails | ⟨ciphers, sent, finished, ready⟩ := @writes_sendVersion crypto
      (createV2Ciphers crypto secret initiating net) node.garbage node.decoyContentLens input
    · exact fails.bind _
    · exact .after finished (stuck ciphers ready)
  · exact node.run_fails_of_tooLarge expected (by omega) _

theorem Node.run_fails_of_long (expected : Nat) (long : maxGarbageLen ≤ other.garbage.length) :
    Fails (node.run initiating net expected) (other.ellswift.bytes ++ (other.garbage ++
      (createV2Ciphers crypto secret initiating net).recvGarbageTerm)) := by
  refine node.run_fails facing expected fun ciphers ready => ?_
  have length := @length_recvGarbageTerm crypto secret initiating net
  have unambiguous := facing.unambiguous
  rw [← ready.recvGarbageTerm] at length unambiguous ⊢
  refine ⟨.garbageTermNotRecv, ?_⟩
  have exhausted := @receiveVersion_exhausted crypto _ _ length unambiguous long []
  rw [List.append_nil] at exhausted
  exact exhausted

end Side

namespace Numbered

def tag (nonce : FixedBytes 12) : Bytes :=
  nonce.bytes ++ [0, 0, 0, 0]

theorem length_tag (nonce : FixedBytes 12) : (tag nonce).length = 16 := by
  simp [tag]

def crypto : Crypto where
  PrivateKey := Unit
  ellswiftECDHXOnly _ _ := some (FixedBytes.zero 32)
  ellswiftHash _ := FixedBytes.zero 32
  extract _ _ := []
  expand _ info :=
    if info = ascii "garbage_terminators" then ⟨List.replicate 32 1, List.length_replicate⟩
    else FixedBytes.zero 32
  keyStream _ _ _ := 0
  aeadSeal _ nonce plaintext _ := plaintext ++ tag nonce
  aeadOpen _ nonce ciphertext _ :=
    if ciphertext.drop (ciphertext.length - 16) = tag nonce then
      some (ciphertext.take (ciphertext.length - 16))
    else none
  length_aeadSeal _ nonce plaintext _ := by
    rw [List.length_append, length_tag]
  aeadOpen_aeadSeal _ nonce plaintext _ := by
    have front : (plaintext ++ tag nonce).length - 16 = plaintext.length := by
      rw [List.length_append, length_tag]
      omega
    rw [front, List.drop_left, List.take_left, if_pos rfl]

def node (garbageLen : Nat) (decoyContentLens : List Nat) : Node crypto :=
  { privKey := ()
    ellswift := FixedBytes.zero 64
    garbage := List.replicate garbageLen 0
    decoyContentLens
    packets := [] }

theorem recvGarbageTerm_eq (initiating : Bool) :
    (createV2Ciphers crypto (FixedBytes.zero 32) initiating 0).recvGarbageTerm =
      List.replicate 16 1 := by
  cases initiating with
  | true => rfl
  | false => rfl

theorem unambiguous (garbageLen : Nat) :
    Unambiguous (List.replicate 16 1) (List.replicate garbageLen 0) := by
  intro offset inside same
  rw [List.length_replicate] at inside
  obtain ⟨later, rfl⟩ := Nat.exists_eq_add_of_lt inside
  rw [slice, List.drop_append_of_le_length (by rw [List.length_replicate]; omega),
    List.drop_replicate, show offset + later + 1 - offset = later + 1 by omega] at same
  cases same

theorem facing (initiating : Bool) (garbageLen otherLen : Nat) (decoys otherDecoys : List Nat) :
    Facing 0 initiating (FixedBytes.zero 32) (node garbageLen decoys)
      (node otherLen otherDecoys) where
  ecdh := by
    cases initiating with
    | true => rfl
    | false => rfl
  unambiguous := by
    rw [recvGarbageTerm_eq]
    exact unambiguous otherLen

theorem xor_zeros (text : Bytes) : FSChaCha20.xor text (List.replicate text.length 0) = text := by
  induction text with
  | nil => rfl
  | cons byte text ih => exact congrArg₂ List.cons UInt8.xor_zero ih

theorem crypt_eq (cipher : FSChaCha20) (text : Bytes) : (cipher.crypt crypto text).1 = text := by
  have stream : cipher.stream crypto cipher.position text.length =
      List.replicate text.length 0 := by
    rw [FSChaCha20.stream, List.eq_replicate_iff]
    simp [crypto]
  rw [FSChaCha20.crypt, stream, xor_zeros]

theorem decrypt_again (key : FixedBytes 32) (plaintext aad : Bytes) :
    ((FSChaCha20Poly1305.new key).advance crypto).decrypt crypto []
      (crypto.aeadSeal key (FSChaCha20Poly1305.new key).nonce plaintext aad) =
        .error .openFailed := by
  have different : tag (FSChaCha20Poly1305.new key).nonce ≠
      tag ((FSChaCha20Poly1305.new key).advance crypto).nonce := by
    intro same
    have counters : leBytes 4 0 = leBytes 4 1 := congrArg (List.take 4) same
    revert counters
    decide
  have front : (plaintext ++ tag (FSChaCha20Poly1305.new key).nonce).length - 16 =
      plaintext.length := by
    rw [List.length_append, length_tag]
    omega
  have refused : crypto.aeadOpen ((FSChaCha20Poly1305.new key).advance crypto).key
      ((FSChaCha20Poly1305.new key).advance crypto).nonce
      (plaintext ++ tag (FSChaCha20Poly1305.new key).nonce) [] = none := by
    apply if_neg
    rw [front, List.drop_left]
    exact different
  rw [FSChaCha20Poly1305.decrypt, FSChaCha20Poly1305.crypt, if_pos rfl]
  exact congrArg (fun result => present result TransportError.openFailed >>= _) refused

theorem receiveRound_again {ciphers : Ciphers}
    (fresh : ciphers.recvP = .new key) (aad : Bytes)
    (short : packet.contents.length ≤ maxContentLen) :
    Fails (receiveRound crypto (ciphers.received crypto, []))
      (ciphers.receiving.encode crypto aad packet) := by
  have length : ((leBytes 4 packet.contents.length).take lengthFieldLen).length =
      lengthFieldLen := rfl
  rw [Direction.encode, crypt_eq]
  refine .after (Runs.receive length _) ?_
  rw [receiveBody, crypt_eq, contentsLen_eq short, require_pos short, Session.check_ok,
    Session.pure_bind]
  have received : receive (headerLen + packet.contents.length + chachapoly1305Expansion)
      (crypto.aeadSeal ciphers.receiving.packets.key ciphers.receiving.packets.nonce
        (packetHeader packet.ignore :: packet.contents) aad) =
      (⟨.done (crypto.aeadSeal key (FSChaCha20Poly1305.new key).nonce
        (packetHeader packet.ignore :: packet.contents) aad), [], []⟩ :
          Session.Progress UInt8 TransportError Bytes) := by
    have taken := Runs.receive (ε := TransportError)
      (length_sealPacket crypto (FSChaCha20Poly1305.new key) aad packet) []
    rw [List.append_nil] at taken
    rw [Ciphers.receiving, fresh]
    exact taken
  refine .after received (.bind ?_ _)
  have next : (ciphers.received crypto).recvP = (FSChaCha20Poly1305.new key).advance crypto := by
    rw [Ciphers.received, Ciphers.receiving, Direction.next, fresh]
  rw [next, decrypt_again]
  exact .check

theorem receiveVersion_copy
    (fits : garbageLen < maxGarbageLen) (short : contentLen ≤ maxContentLen)
    (ready : Ready (createV2Ciphers crypto (FixedBytes.zero 32) initiating 0) ciphers) :
    Fails (receiveVersion crypto ciphers) (List.replicate garbageLen 0 ++ ciphers.recvGarbageTerm ++
        (ciphers.receiving.encode crypto (List.replicate garbageLen 0)
            ⟨List.replicate contentLen 0, true⟩ ++
          ciphers.receiving.encode crypto (List.replicate garbageLen 0)
            ⟨List.replicate contentLen 0, true⟩)) := by
  have term : ciphers.recvGarbageTerm = List.replicate 16 1 := by
    rw [ready.recvGarbageTerm, recvGarbageTerm_eq]
  have contents : (List.replicate contentLen (0 : UInt8)).length ≤ maxContentLen := by
    rw [List.length_replicate]
    exact short
  have found := @receiveVersion_found crypto ciphers (List.replicate garbageLen 0)
    (by rw [term]; rfl) (by rw [term]; exact unambiguous garbageLen)
    (by rw [List.length_replicate]; exact fits)
  obtain ⟨key, fresh⟩ : ∃ key, ciphers.recvP = .new key := by
    have packets : ciphers.recvP =
        (createV2Ciphers crypto (FixedBytes.zero 32) initiating 0).recvP :=
      congrArg Direction.packets ready.receiving
    rw [packets]
    cases initiating with
    | true => exact ⟨_, rfl⟩
    | false => exact ⟨_, rfl⟩
  have again : Fails (v2ReceivePacket crypto (ciphers.received crypto) [])
      (ciphers.receiving.encode crypto (List.replicate garbageLen 0)
        ⟨List.replicate contentLen 0, true⟩) := by
    rw [v2ReceivePacket, Session.iterate_eq (consumes_receiveRound crypto)]
    exact (receiveRound_again fresh _ contents).bind _
  have passed := @v2ReceivePacket_ignored crypto ciphers (List.replicate garbageLen 0)
    ⟨List.replicate contentLen 0, true⟩ contents rfl
    (ciphers.receiving.encode crypto (List.replicate garbageLen 0)
      ⟨List.replicate contentLen 0, true⟩)
  obtain ⟨error, failed⟩ := again
  rw [← passed] at failed
  obtain ⟨error, failed⟩ := Fails.bind ⟨error, failed⟩ fun received =>
    (pure received.2 : Transport Ciphers)
  refine ⟨error, ?_⟩
  rw [found]
  exact failed

section Sender

variable {initiating : Bool} {garbageLen otherLen : Nat} {decoys otherDecoys : List Nat}
  (completes : Duplex.Completes ((node garbageLen decoys).run initiating 0 0)
    ((node otherLen otherDecoys).run (!initiating) 0 0) [] [])

include completes in
theorem garbageLen_le : garbageLen ≤ maxGarbageLen ∧ otherLen ≤ maxGarbageLen := by
  obtain ⟨first, second⟩ := completes.not_fails .refl
  refine ⟨Nat.le_of_not_lt fun large => first ?_, Nat.le_of_not_lt fun large => second ?_⟩
  · exact (node garbageLen decoys).run_fails_of_tooLarge 0
      (by rw [node, List.length_replicate]; exact large) []
  · exact (node otherLen otherDecoys).run_fails_of_tooLarge 0
      (by rw [node, List.length_replicate]; exact large) []

include completes in
theorem not_fails {sent : Bytes}
    (sends : sent <+: (sendVersion crypto (createV2Ciphers crypto (FixedBytes.zero 32)
      initiating 0) (List.replicate garbageLen 0) decoys []).sent) :
    ¬ Fails ((node garbageLen decoys).run initiating 0 0) (FixedBytes.zero 64).bytes ∧
      ¬ Fails ((node otherLen otherDecoys).run (!initiating) 0 0)
        ((FixedBytes.zero 64).bytes ++ (List.replicate garbageLen 0 ++ sent)) := by
  obtain ⟨fits, fitsOther⟩ := garbageLen_le completes
  have opens := @Node.run_started crypto 0 (!initiating) (node otherLen otherDecoys) 0
    (by rw [node, List.length_replicate]; exact fitsOther) []
  have answers := (node garbageLen decoys).run_terminated
    (facing initiating garbageLen otherLen decoys otherDecoys)
    (by rw [node, List.length_replicate]; exact fits) 0 sends
  have start : Duplex.Reachable ((node garbageLen decoys).run initiating 0 0)
      ((node otherLen otherDecoys).run (!initiating) 0 0) ⟨[], []⟩ := .refl
  have opened := start.deliver_first ((List.prefix_append _ _).trans opens)
  exact ⟨(completes.not_fails opened).1, (completes.not_fails (opened.deliver_second answers)).2⟩

include completes in
theorem garbageLen_lt : garbageLen < maxGarbageLen := by
  by_contra long
  have terminator : (createV2Ciphers crypto (FixedBytes.zero 32) initiating 0).sendGarbageTerm <+:
      (sendVersion crypto (createV2Ciphers crypto (FixedBytes.zero 32) initiating 0)
        (List.replicate garbageLen 0) decoys []).sent := (Runs.send _).prefix_sent []
  apply (not_fails completes terminator).2
  have mirrored : (createV2Ciphers crypto (FixedBytes.zero 32) initiating 0).sendGarbageTerm =
      (createV2Ciphers crypto (FixedBytes.zero 32) (!initiating) 0).recvGarbageTerm := by
    rw [createV2Ciphers_not]
    rfl
  rw [mirrored]
  exact (node otherLen otherDecoys).run_fails_of_long
    (facing (!initiating) otherLen garbageLen otherDecoys decoys) 0
    (by rw [node, List.length_replicate]; omega)

include completes in
theorem decoys_eq_nil : decoys = [] := by
  cases decoys with
  | nil => rfl
  | cons contentLen decoys =>
    exfalso
    obtain ⟨fits, -⟩ := garbageLen_le completes
    by_cases short : contentLen ≤ maxContentLen
    · have twice := @sendVersion_sends_twice crypto
        (createV2Ciphers crypto (FixedBytes.zero 32) initiating 0) contentLen short
        (List.replicate garbageLen 0) decoys []
      apply (not_fails completes twice).2
      refine (node otherLen otherDecoys).run_fails
        (facing (!initiating) otherLen garbageLen otherDecoys (contentLen :: decoys)) 0 ?_
      intro ciphers ready
      have term := ready.recvGarbageTerm
      have receiving := ready.receiving
      rw [createV2Ciphers_not] at term receiving
      have copy := receiveVersion_copy (garbageLen_lt completes) short ready
      rw [term, receiving, List.append_assoc] at copy
      exact copy
    · apply (not_fails completes List.nil_prefix).1
      refine .after (runs_start (by rw [node, List.length_replicate]; exact fits) _)
        (.bind (.after (runs_exchangeKeys
          (facing initiating garbageLen otherLen (contentLen :: decoys) otherDecoys) [])
          (.bind ?_ _)) _)
      exact sendVersion_fails_of_long (by omega) _ _ _

end Sender

theorem honest (garbageLen otherLen : Nat) (decoys otherDecoys : List Nat) :
    Honest 0 (FixedBytes.zero 32) (node garbageLen decoys) (node otherLen otherDecoys) where
  ecdh := rfl
  ecdhResponder := rfl
  unambiguous := (facing false otherLen garbageLen otherDecoys decoys).unambiguous
  unambiguousResponder := (facing true garbageLen otherLen decoys otherDecoys).unambiguous
  short := by rintro _ ⟨⟩
  shortResponder := by rintro _ ⟨⟩

end Numbered

/-- Two honest nodes get through whatever they say exactly where both send less garbage
than is allowed and no decoys. -/
theorem getsThrough_iff (garbageLen : Nat) (decoys : List Nat) (garbageLenResponder : Nat)
    (decoysResponder : List Nat) :
    GetsThrough garbageLen decoys garbageLenResponder decoysResponder ↔
      (garbageLen < maxGarbageLen ∧ decoys = []) ∧
        garbageLenResponder < maxGarbageLen ∧ decoysResponder = [] := by
  constructor
  · intro getsThrough
    have completes := getsThrough Numbered.crypto 0 (FixedBytes.zero 32)
      (Numbered.node garbageLen decoys) (Numbered.node garbageLenResponder decoysResponder)
      List.length_replicate rfl List.length_replicate rfl (Numbered.honest _ _ _ _)
    exact ⟨⟨Numbered.garbageLen_lt completes, Numbered.decoys_eq_nil completes⟩,
      Numbered.garbageLen_lt completes.symm, Numbered.decoys_eq_nil completes.symm⟩
  · rintro ⟨⟨fits, rfl⟩, fitsResponder, rfl⟩ crypto net point initiator responder
      rfl plain rfl plainResponder honest
    exact honest.completes fits fitsResponder plain plainResponder

/-- The longest garbage that a node chooses, and one decoy, are each enough to break a
connection that says nothing. -/
theorem handshake_fails_maxGarbageLen :
    (Honest 0 (FixedBytes.zero 32) (Numbered.node 4095 []) (Numbered.node 0 []) ∧
      ¬ Duplex.Completes ((Numbered.node 4095 []).run true 0 0)
        ((Numbered.node 0 []).run false 0 0) [] []) ∧
    Honest 0 (FixedBytes.zero 32) (Numbered.node 0 [10]) (Numbered.node 0 []) ∧
      ¬ Duplex.Completes ((Numbered.node 0 [10]).run true 0 0)
        ((Numbered.node 0 []).run false 0 0) [] [] := by
  refine ⟨⟨Numbered.honest _ _ _ _, fun completes => ?_⟩, Numbered.honest _ _ _ _,
    fun completes => ?_⟩
  · exact absurd (Numbered.garbageLen_lt completes) (Nat.lt_irrefl _)
  · cases Numbered.decoys_eq_nil completes

end ModelOS.V2Transport
