import ModelOS.Data.Session
import ModelOS.V2Transport.Cipher

namespace ModelOS.V2Transport

open Data
open ModelOS.Data.Session (send receive check fail iterate)

def garbageSize : Nat := 16

def maxGarbageLen : Nat := 4095

def maxContentLen : Nat := 2 ^ 24 - 1

def lengthFieldLen : Nat := 3

def headerLen : Nat := 1

def chachapoly1305Expansion : Nat := 16

def ignoreBitPos : UInt8 := 7

def transportVersion : Bytes := []

def ascii (text : String) : Bytes :=
  text.toList.map fun character => UInt8.ofNat character.toNat

/-- The connection is a stream of bytes in either direction; a read that asks for more
than has come waits, and a write never fails. -/
abbrev Transport := Session UInt8 TransportError

structure Ciphers where
  sendL : FSChaCha20
  sendP : FSChaCha20Poly1305
  sendGarbageTerm : Bytes
  recvL : FSChaCha20
  recvP : FSChaCha20Poly1305
  recvGarbageTerm : Bytes
deriving DecidableEq

variable (crypto : Crypto)

structure Peer where
  privkeyOurs : crypto.PrivateKey
  ellswiftOurs : FixedBytes 64
  sentGarbage : Bytes

def createV2Ciphers (ecdhSecret : FixedBytes 32) (initiating : Bool) (net : UInt32) : Ciphers :=
  let salt := ascii "pearl_v2_shared_secret" ++ leBytes 4 net.toNat
  let prk := crypto.extract ecdhSecret.bytes salt
  let initiatorL := crypto.expand prk (ascii "initiator_L")
  let initiatorP := crypto.expand prk (ascii "initiator_P")
  let responderL := crypto.expand prk (ascii "responder_L")
  let responderP := crypto.expand prk (ascii "responder_P")
  let garbageTerminators := crypto.expand prk (ascii "garbage_terminators")
  let initiatorGarbageTerminator := garbageTerminators.bytes.take garbageSize
  let responderGarbageTerminator := garbageTerminators.bytes.drop garbageSize
  if initiating then
    { sendL := .new initiatorL
      sendP := .new initiatorP
      sendGarbageTerm := initiatorGarbageTerminator
      recvL := .new responderL
      recvP := .new responderP
      recvGarbageTerm := responderGarbageTerminator }
  else
    { sendL := .new responderL
      sendP := .new responderP
      sendGarbageTerm := responderGarbageTerminator
      recvL := .new initiatorL
      recvP := .new initiatorP
      recvGarbageTerm := initiatorGarbageTerminator }

/-! The random garbage is given; its length is the one that was asked for. -/

def generateKeyAndGarbage (ellswiftOurs : FixedBytes 64) (garbage : Bytes) :
    Except TransportError Bytes := do
  require (garbage.length ≤ maxGarbageLen) .garbageTooLarge
  return ellswiftOurs.bytes ++ garbage

variable {crypto} in
def initiateV2Handshake (privkeyOurs : crypto.PrivateKey) (ellswiftOurs : FixedBytes 64)
    (garbage : Bytes) : Transport (Peer crypto) := do
  let data ← check (generateKeyAndGarbage ellswiftOurs garbage)
  send data
  return { privkeyOurs, ellswiftOurs, sentGarbage := garbage }

variable {crypto} in
def respondV2Handshake (privkeyOurs : crypto.PrivateKey) (ellswiftOurs : FixedBytes 64)
    (garbage : Bytes) : Transport (Peer crypto) := do
  let data ← check (generateKeyAndGarbage ellswiftOurs garbage)
  send data
  return { privkeyOurs, ellswiftOurs, sentGarbage := garbage }

def packetHeader (ignore : Bool) : UInt8 :=
  (if ignore then 1 else 0) <<< ignoreBitPos

def v2EncPacket (ciphers : Ciphers) (contents aad : Bytes) (ignore : Bool) :
    Transport (Bytes × Ciphers) := do
  check (require (contents.length ≤ maxContentLen) .contentLengthExceeded)
  let encrypted ← check
    (ciphers.sendP.encrypt crypto aad (packetHeader ignore :: contents))
  let contentsLE := leBytes 4 contents.length
  let encContentsLen := ciphers.sendL.crypt crypto (contentsLE.take lengthFieldLen)
  let encPacket := encContentsLen.1 ++ encrypted.1
  send encPacket
  return (encPacket, { ciphers with sendL := encContentsLen.2, sendP := encrypted.2 })

def receiveBody (ciphers : Ciphers) (aad encContentsLen : Bytes) :
    Transport ((Ciphers × Bytes) ⊕ (Bytes × Ciphers)) := do
  let contentsLenBytes := ciphers.recvL.crypt crypto encContentsLen
  let contentsLen := leNat (FixedBytes.copy 4 contentsLenBytes.1).bytes
  check (require (contentsLen ≤ maxContentLen) .contentLengthExceeded)
  let aeadCiphertext ← receive (headerLen + contentsLen + chachapoly1305Expansion)
  let decrypted ← check (ciphers.recvP.decrypt crypto aad aeadCiphertext)
  let ciphers := { ciphers with recvL := contentsLenBytes.2, recvP := decrypted.2 }
  match decrypted.1 with
  | [] => fail .sliceOutOfRange
  | header :: contents =>
    if header &&& (1 <<< ignoreBitPos) = 0 then return .inr (contents, ciphers)
    else return .inl (ciphers, [])

/-- One round of the loop: a packet with the ignore bit leads to the next round. -/
def receiveRound (state : Ciphers × Bytes) : Transport ((Ciphers × Bytes) ⊕ (Bytes × Ciphers)) := do
  let encContentsLen ← receive lengthFieldLen
  receiveBody crypto state.1 state.2 encContentsLen

def v2ReceivePacket (ciphers : Ciphers) (aad : Bytes) : Transport (Bytes × Ciphers) :=
  iterate (receiveRound crypto) (ciphers, aad)

/-! The handshake.  `CompleteHandshake` is cut where it has sent its version packet. -/

def sendDecoys (ciphers : Ciphers) (aad : Bytes) :
    (decoyContentLens : List Nat) → Transport (Ciphers × Bytes)
  | [] => return (ciphers, aad)
  | contentLen :: rest => do
      let encrypted ← v2EncPacket crypto ciphers (List.replicate contentLen 0) aad true
      send encrypted.1
      sendDecoys encrypted.2 [] rest

def sendVersion (ciphers : Ciphers) (sentGarbage : Bytes) (decoyContentLens : List Nat) :
    Transport Ciphers := do
  send ciphers.sendGarbageTerm
  let decoyed ← sendDecoys crypto ciphers sentGarbage decoyContentLens
  let encrypted ← v2EncPacket crypto decoyed.1 transportVersion decoyed.2 false
  return encrypted.2

def exchangeKeys (peer : Peer crypto) (initiating : Bool) (prlnet : UInt32) :
    Transport Ciphers := do
  let recvData ← receive 64
  let ellswiftTheirs := FixedBytes.copy 64 recvData
  let ecdhSecret ← check
    (v2Ecdh crypto peer.privkeyOurs ellswiftTheirs peer.ellswiftOurs initiating)
  return createV2Ciphers crypto ecdhSecret initiating prlnet

def skipGarbage (ciphers : Ciphers) : (remaining : Nat) → (recvGarbage : Bytes) → Transport Ciphers
  | 0, _ => fail .garbageTermNotRecv
  | remaining + 1, recvGarbage =>
    if recvGarbage.drop (recvGarbage.length - 16) = ciphers.recvGarbageTerm then do
      let received ← v2ReceivePacket crypto ciphers
        (recvGarbage.take (recvGarbage.length - 16))
      return received.2
    else do
      let recvData ← receive 1
      skipGarbage ciphers remaining (recvGarbage ++ recvData)

def receiveVersion (ciphers : Ciphers) : Transport Ciphers := do
  let recvGarbage ← receive 16
  skipGarbage crypto ciphers maxGarbageLen recvGarbage

def completeHandshake (peer : Peer crypto) (initiating : Bool)
    (decoyContentLens : List Nat) (prlnet : UInt32) : Transport Ciphers := do
  let ciphers ← exchangeKeys crypto peer initiating prlnet
  let ciphers ← sendVersion crypto ciphers peer.sentGarbage decoyContentLens
  receiveVersion crypto ciphers

theorem consumes_receiveRound : Session.Consumes (receiveRound crypto) := by
  apply Session.Consumes.of_receive (by decide)
  intro state encContentsLen
  refine .bind (.check _) fun _ => .bind (.receive _) fun _ => .bind (.check _) ?_
  intro decrypted
  dsimp only
  split
  · exact .fail _
  · split
    · exact .pure _
    · exact .pure _

theorem causal_receiveRound (state : Ciphers × Bytes) : (receiveRound crypto state).Causal := by
  refine .bind (.receive _) fun _ => .bind (.check _) fun _ =>
    .bind (.receive _) fun _ => .bind (.check _) ?_
  intro decrypted
  dsimp only
  split
  · exact .fail _
  · split
    · exact .pure _
    · exact .pure _

theorem causal_v2ReceivePacket (ciphers : Ciphers) (aad : Bytes) :
    (v2ReceivePacket crypto ciphers aad).Causal :=
  .iterate (causal_receiveRound crypto) (consumes_receiveRound crypto) _

theorem causal_v2EncPacket (ciphers : Ciphers) (contents aad : Bytes) (ignore : Bool) :
    (v2EncPacket crypto ciphers contents aad ignore).Causal :=
  .bind (.check _) fun _ => .bind (.check _) fun _ => .bind (.send _) fun _ => .pure _

theorem causal_sendDecoys (ciphers : Ciphers) (aad : Bytes) (lens : List Nat) :
    (sendDecoys crypto ciphers aad lens).Causal := by
  induction lens generalizing ciphers aad with
  | nil => exact .pure _
  | cons contentLen lens ih =>
    exact .bind (causal_v2EncPacket crypto _ _ _ _) fun _ =>
      .bind (.send _) fun _ => ih _ _

theorem causal_skipGarbage (ciphers : Ciphers) (remaining : Nat) (recvGarbage : Bytes) :
    (skipGarbage crypto ciphers remaining recvGarbage).Causal := by
  induction remaining generalizing recvGarbage with
  | zero => exact .fail _
  | succ remaining ih =>
    rw [skipGarbage]
    split
    · exact .bind (causal_v2ReceivePacket crypto _ _) fun _ => .pure _
    · exact .bind (.receive _) fun _ => ih _

theorem causal_initiateV2Handshake (privkeyOurs : crypto.PrivateKey)
    (ellswiftOurs : FixedBytes 64) (garbage : Bytes) :
    (initiateV2Handshake privkeyOurs ellswiftOurs garbage).Causal :=
  .bind (.check _) fun _ => .bind (.send _) fun _ => .pure _

theorem causal_completeHandshake (peer : Peer crypto) (initiating : Bool)
    (lens : List Nat) (prlnet : UInt32) :
    (completeHandshake crypto peer initiating lens prlnet).Causal := by
  refine .bind ?exchange fun _ => .bind ?send fun _ => ?receive
  case exchange => exact .bind (.receive _) fun _ => .bind (.check _) fun _ => .pure _
  case send =>
    exact .bind (.send _) fun _ => .bind (causal_sendDecoys crypto _ _ _) fun _ =>
      .bind (causal_v2EncPacket crypto _ _ _ _) fun _ => .pure _
  case receive => exact .bind (.receive _) fun _ => causal_skipGarbage crypto _ _ _

end ModelOS.V2Transport
