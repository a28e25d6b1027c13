import ModelOS.V2Transport.Transport

namespace ModelOS.V2Transport

open Data
open ModelOS.Data.Session (Runs send receive check)

/-! Sender and receiver hold the same ciphers as long as they have seen the same number
of packets. -/

structure Direction where
  lengths : FSChaCha20
  packets : FSChaCha20Poly1305

structure Packet where
  contents : Bytes
  ignore : Bool

variable (crypto : Crypto)

namespace Direction

def next (direction : Direction) : Direction :=
  { lengths := direction.lengths.advance crypto lengthFieldLen
    packets := direction.packets.advance crypto }

def encode (direction : Direction) (aad : Bytes) (packet : Packet) : Bytes :=
  (direction.lengths.crypt crypto ((leBytes 4 packet.contents.length).take lengthFieldLen)).1 ++
    crypto.aeadSeal direction.packets.key direction.packets.nonce
      (packetHeader packet.ignore :: packet.contents) aad

def stream (direction : Direction) (aad : Bytes) : List Packet → Bytes
  | [] => []
  | packet :: packets =>
    direction.encode crypto aad packet ++ (direction.next crypto).stream [] packets

end Direction

def messages (packets : List Packet) : List Bytes :=
  (packets.filter fun packet => !packet.ignore).map Packet.contents

theorem length_sealPacket (cipher : FSChaCha20Poly1305) (aad : Bytes) (packet : Packet) :
    (crypto.aeadSeal cipher.key cipher.nonce (packetHeader packet.ignore :: packet.contents)
      aad).length = headerLen + packet.contents.length + chachapoly1305Expansion := by
  rw [crypto.length_aeadSeal, List.length_cons, headerLen, chachapoly1305Expansion]
  omega

namespace Ciphers

def sending (ciphers : Ciphers) : Direction :=
  { lengths := ciphers.sendL, packets := ciphers.sendP }

def receiving (ciphers : Ciphers) : Direction :=
  { lengths := ciphers.recvL, packets := ciphers.recvP }

def sent (ciphers : Ciphers) : Ciphers :=
  { ciphers with
    sendL := (ciphers.sending.next crypto).lengths
    sendP := (ciphers.sending.next crypto).packets }

def received (ciphers : Ciphers) : Ciphers :=
  { ciphers with
    recvL := (ciphers.receiving.next crypto).lengths
    recvP := (ciphers.receiving.next crypto).packets }

@[simp] theorem receiving_received (ciphers : Ciphers) :
    (ciphers.received crypto).receiving = ciphers.receiving.next crypto :=
  rfl

end Ciphers

variable {crypto} {ciphers : Ciphers} {aad : Bytes} {packet : Packet} {packets : List Packet}

theorem runs_v2EncPacket (short : packet.contents.length ≤ maxContentLen) :
    Runs (v2EncPacket crypto ciphers packet.contents aad packet.ignore) []
      (ciphers.sending.encode crypto aad packet, ciphers.sent crypto)
      (ciphers.sending.encode crypto aad packet) := by
  rw [v2EncPacket, require_pos short, Session.check_ok, Session.pure_bind,
    FSChaCha20Poly1305.encrypt_eq, Session.check_ok, Session.pure_bind]
  exact (Runs.send _).map _

theorem contentsLen_eq {contents : Bytes} (short : contents.length ≤ maxContentLen) :
    leNat (FixedBytes.copy 4 ((leBytes 4 contents.length).take lengthFieldLen)).bytes =
      contents.length := by
  have narrow : (leBytes 4 contents.length).take lengthFieldLen = leBytes 3 contents.length := rfl
  have padded : (FixedBytes.copy 4 (leBytes 3 contents.length)).bytes =
      leBytes 3 contents.length ++ [0] := rfl
  have small : contents.length < 256 ^ 3 := by
    rw [maxContentLen] at short
    omega
  rw [narrow, padded, leNat_append_zero, leNat_leBytes_of_lt small]

theorem packetHeader_and (ignore : Bool) :
    packetHeader ignore &&& (1 <<< ignoreBitPos) = 0 ↔ ignore = false := by
  cases ignore with
  | false => decide
  | true => decide

section

variable (short : packet.contents.length ≤ maxContentLen)
include short

theorem runs_receiveRound :
    Runs (receiveRound crypto (ciphers, aad)) (ciphers.receiving.encode crypto aad packet)
      (if packet.ignore then .inl (ciphers.received crypto, [])
        else .inr (packet.contents, ciphers.received crypto)) [] := by
  have encLength : (ciphers.recvL.crypt crypto
      ((leBytes 4 packet.contents.length).take lengthFieldLen)).1.length = lengthFieldLen := by
    rw [FSChaCha20.length_crypt]
    rfl
  refine (Runs.receive encLength).bind ?_
  rw [receiveBody, FSChaCha20.crypt_crypt]
  dsimp only
  rw [contentsLen_eq short, require_pos short, Session.check_ok, Session.pure_bind]
  have sealLength := length_sealPacket crypto ciphers.recvP aad packet
  rw [← List.append_nil (crypto.aeadSeal _ _ _ _)]
  refine (Runs.receive sealLength).bind ?_
  rw [FSChaCha20Poly1305.decrypt_seal, Session.check_ok, Session.pure_bind]
  dsimp only
  cases ignored : packet.ignore with
  | false =>
    rw [if_pos ((packetHeader_and false).mpr rfl)]
    exact Runs.pure _
  | true =>
    rw [if_neg (by decide)]
    exact Runs.pure _

theorem v2ReceivePacket_ignored (ignored : packet.ignore = true) (rest : Bytes) :
    v2ReceivePacket crypto ciphers aad (ciphers.receiving.encode crypto aad packet ++ rest) =
      v2ReceivePacket crypto (ciphers.received crypto) [] rest := by
  have round := @runs_receiveRound crypto ciphers aad packet short
  rw [ignored, if_pos rfl] at round
  rw [v2ReceivePacket, Session.iterate_eq (consumes_receiveRound crypto), round.bind_apply]
  rfl

theorem runs_v2ReceivePacket (kept : packet.ignore = false) :
    Runs (v2ReceivePacket crypto ciphers aad) (ciphers.receiving.encode crypto aad packet)
      (packet.contents, ciphers.received crypto) [] := by
  intro rest
  have round := @runs_receiveRound crypto ciphers aad packet short
  rw [kept, if_neg (by decide)] at round
  rw [v2ReceivePacket, Session.iterate_eq (consumes_receiveRound crypto), round.bind_apply]
  rfl

end

/-- The terminator does not occur before its place. -/
def Unambiguous (terminator garbage : Bytes) : Prop :=
  ∀ offset < garbage.length, slice (garbage ++ terminator) offset 16 ≠ terminator

section Garbage

variable {garbage seen unread : Bytes} {remaining : Nat}
  (length : ciphers.recvGarbageTerm.length = 16)
  (unambiguous : Unambiguous ciphers.recvGarbageTerm garbage)
include length

include unambiguous in
private theorem not_terminator {byte : UInt8}
    (split : seen ++ byte :: unread = garbage ++ ciphers.recvGarbageTerm)
    (started : 16 ≤ seen.length) : seen.drop (seen.length - 16) ≠ ciphers.recvGarbageTerm := by
  have total := congrArg List.length split
  rw [List.length_append, List.length_append, List.length_cons, length] at total
  have early := unambiguous (seen.length - 16) (by omega)
  rw [← split, slice_inside (by omega), slice, List.take_of_length_le] at early
  · exact early
  · rw [List.length_drop]
    omega

include unambiguous in
private theorem skipGarbage_next {byte : UInt8}
    (split : seen ++ byte :: unread = garbage ++ ciphers.recvGarbageTerm)
    (started : 16 ≤ seen.length) (rest : Bytes) :
    skipGarbage crypto ciphers (remaining + 1) seen (byte :: unread ++ rest) =
      skipGarbage crypto ciphers remaining (seen ++ [byte]) (unread ++ rest) := by
  have read : Runs (receive 1 : Transport Bytes) [byte] [byte] [] := Runs.receive rfl
  have input : byte :: unread ++ rest = [byte] ++ (unread ++ rest) := rfl
  rw [skipGarbage, if_neg (not_terminator length unambiguous split started), input, read.bind_apply]
  rfl

include unambiguous in
theorem skipGarbage_found (split : seen ++ unread = garbage ++ ciphers.recvGarbageTerm)
    (started : 16 ≤ seen.length) (enough : unread.length < remaining) (rest : Bytes) :
    skipGarbage crypto ciphers remaining seen (unread ++ rest) =
      (v2ReceivePacket crypto ciphers garbage >>= fun received =>
        (pure received.2 : Transport Ciphers)) rest := by
  induction unread generalizing seen remaining with
  | nil =>
    obtain ⟨remaining, rfl⟩ := Nat.exists_eq_succ_of_ne_zero (by omega : remaining ≠ 0)
    rw [List.append_nil] at split
    have whole : seen.length - 16 = garbage.length := by
      rw [split, List.length_append, length]
      omega
    rw [skipGarbage, if_pos (by rw [whole, split, List.drop_left]), whole, split, List.take_left]
    rfl
  | cons byte unread ih =>
    obtain ⟨remaining, rfl⟩ := Nat.exists_eq_succ_of_ne_zero (by omega : remaining ≠ 0)
    rw [List.length_cons] at enough
    have next : (seen ++ [byte]) ++ unread = garbage ++ ciphers.recvGarbageTerm := by
      rw [List.append_assoc]
      exact split
    rw [skipGarbage_next length unambiguous split started]
    exact ih next (by rw [List.length_append]; omega) (by omega)

include unambiguous in
/-- The loop ends after the read of the last byte, without looking at it. -/
theorem skipGarbage_exhausted (split : seen ++ unread = garbage ++ ciphers.recvGarbageTerm)
    (started : 16 ≤ seen.length) (short : remaining ≤ unread.length) (rest : Bytes) :
    (skipGarbage crypto ciphers remaining seen (unread ++ rest)).outcome =
      .failed .garbageTermNotRecv := by
  induction remaining generalizing seen unread with
  | zero => rfl
  | succ remaining ih =>
    cases unread with
    | nil => cases short
    | cons byte unread =>
      rw [List.length_cons] at short
      have next : (seen ++ [byte]) ++ unread = garbage ++ ciphers.recvGarbageTerm := by
        rw [List.append_assoc]
        exact split
      rw [skipGarbage_next length unambiguous split started]
      exact ih next (by rw [List.length_append]; omega) (by omega)

private theorem receiveVersion_eq (rest : Bytes) :
    receiveVersion crypto ciphers (garbage ++ ciphers.recvGarbageTerm ++ rest) =
      skipGarbage crypto ciphers maxGarbageLen ((garbage ++ ciphers.recvGarbageTerm).take 16)
        ((garbage ++ ciphers.recvGarbageTerm).drop 16 ++ rest) := by
  have first : ((garbage ++ ciphers.recvGarbageTerm).take 16).length = 16 := by
    rw [List.length_take, List.length_append, length]
    omega
  nth_rewrite 1 [← List.take_append_drop 16 (garbage ++ ciphers.recvGarbageTerm)]
  rw [List.append_assoc, receiveVersion, (Runs.receive first).bind_apply]
  rfl

include unambiguous in
theorem receiveVersion_found (fits : garbage.length < maxGarbageLen) (rest : Bytes) :
    receiveVersion crypto ciphers (garbage ++ ciphers.recvGarbageTerm ++ rest) =
      (v2ReceivePacket crypto ciphers garbage >>= fun received =>
        (pure received.2 : Transport Ciphers)) rest := by
  rw [receiveVersion_eq length, skipGarbage_found length unambiguous (List.take_append_drop 16 _)]
  · rw [List.length_take, List.length_append, length]
    omega
  · rw [List.length_drop, List.length_append, length]
    omega

include unambiguous in
theorem runs_receiveVersion (fits : garbage.length < maxGarbageLen) :
    Runs (receiveVersion crypto ciphers)
      (garbage ++ ciphers.recvGarbageTerm ++
        ciphers.receiving.encode crypto garbage ⟨transportVersion, false⟩)
      (ciphers.received crypto) [] := by
  intro rest
  have received : Runs (v2ReceivePacket crypto ciphers garbage)
      (ciphers.receiving.encode crypto garbage ⟨transportVersion, false⟩) _ [] :=
    runs_v2ReceivePacket (Nat.zero_le _) rfl
  rw [List.append_assoc, receiveVersion_found length unambiguous fits]
  exact received.map Prod.snd rest

include unambiguous in
theorem receiveVersion_exhausted (long : maxGarbageLen ≤ garbage.length) (rest : Bytes) :
    (receiveVersion crypto ciphers (garbage ++ ciphers.recvGarbageTerm ++ rest)).outcome =
      .failed .garbageTermNotRecv := by
  rw [receiveVersion_eq length]
  apply skipGarbage_exhausted length unambiguous (List.take_append_drop 16 _)
  · rw [List.length_take, List.length_append, length]
    omega
  · rw [List.length_drop, List.length_append, length]
    omega

end Garbage

end ModelOS.V2Transport
