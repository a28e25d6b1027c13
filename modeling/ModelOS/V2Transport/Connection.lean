import ModelOS.Data.Duplex
import ModelOS.V2Transport.Lockstep

namespace ModelOS.V2Transport

open Data
open ModelOS.Data.Session (Runs send receive check)

variable (crypto : Crypto)

/-! Messages are sent and received by two goroutines that share none of the ciphers, so
that the packets may as well all be written before the first is read. -/

structure Node where
  privKey : crypto.PrivateKey
  ellswift : FixedBytes 64
  garbage : Bytes
  decoyContentLens : List Nat
  packets : List Packet

def sendPackets (ciphers : Ciphers) : List Packet → Transport Ciphers
  | [] => return ciphers
  | packet :: packets => do
      let encrypted ← v2EncPacket crypto ciphers packet.contents [] packet.ignore
      sendPackets encrypted.2 packets

def receivePackets (ciphers : Ciphers) : (count : Nat) → Transport (List Bytes)
  | 0 => return []
  | count + 1 => do
      let received ← v2ReceivePacket crypto ciphers []
      let rest ← receivePackets received.2 count
      return received.1 :: rest

variable {crypto}

namespace Node

def start (node : Node crypto) (initiating : Bool) : Transport (Peer crypto) :=
  if initiating then initiateV2Handshake node.privKey node.ellswift node.garbage
  else respondV2Handshake node.privKey node.ellswift node.garbage

def talk (node : Node crypto) (expected : Nat) (ciphers : Ciphers) : Transport (List Bytes) := do
  let ciphers ← sendPackets crypto ciphers node.packets
  receivePackets crypto ciphers expected

def run (node : Node crypto) (initiating : Bool) (net : UInt32) (expected : Nat) :
    Transport (List Bytes) := do
  let peer ← node.start initiating
  let ciphers ← completeHandshake crypto peer initiating node.decoyContentLens net
  node.talk expected ciphers

def peer (node : Node crypto) : Peer crypto :=
  { privkeyOurs := node.privKey
    ellswiftOurs := node.ellswift
    sentGarbage := node.garbage }

theorem start_eq (node : Node crypto) (initiating : Bool) : node.start initiating =
      initiateV2Handshake node.privKey node.ellswift node.garbage := by
  cases initiating with
  | true => rfl
  | false => rfl

end Node

theorem causal_sendPackets (ciphers : Ciphers) (packets : List Packet) :
    (sendPackets crypto ciphers packets).Causal := by
  induction packets generalizing ciphers with
  | nil => exact .pure _
  | cons packet packets ih =>
    exact .bind (causal_v2EncPacket crypto _ _ _ _) fun _ => ih _

theorem causal_receivePackets (ciphers : Ciphers) (count : Nat) :
    (receivePackets crypto ciphers count).Causal := by
  induction count generalizing ciphers with
  | zero => exact .pure _
  | succ count ih =>
    exact .bind (causal_v2ReceivePacket crypto _ _) fun _ =>
      .bind (ih _) fun _ => .pure _

theorem Node.causal_run (node : Node crypto) (initiating : Bool) (net : UInt32)
    (expected : Nat) : (node.run initiating net expected).Causal := by
  refine .bind ?start fun _ => .bind (causal_completeHandshake crypto _ _ _ _) fun _ =>
    .bind (causal_sendPackets _ _) fun _ => causal_receivePackets _ _
  case start =>
    rw [node.start_eq]
    exact causal_initiateV2Handshake crypto _ _ _

variable (crypto) in
def Ciphers.sentAll (ciphers : Ciphers) : List Packet → Ciphers
  | [] => ciphers
  | _ :: packets => (ciphers.sent crypto).sentAll packets

variable {ciphers : Ciphers} {packets : List Packet}

theorem Ciphers.receiving_sentAll :
    (ciphers.sentAll crypto packets).receiving = ciphers.receiving := by
  induction packets generalizing ciphers with
  | nil => rfl
  | cons packet packets ih => exact ih

theorem runs_sendPackets (short : ∀ packet ∈ packets, packet.contents.length ≤ maxContentLen) :
    Runs (sendPackets crypto ciphers packets) [] (ciphers.sentAll crypto packets)
      (ciphers.sending.stream crypto [] packets) := by
  induction packets generalizing ciphers with
  | nil => exact Runs.pure _
  | cons packet packets ih =>
    rw [List.forall_mem_cons] at short
    exact (runs_v2EncPacket short.1).bind (ih short.2)

theorem receivePackets_ignored
    (short : packet.contents.length ≤ maxContentLen) (ignored : packet.ignore = true) :
    receivePackets crypto ciphers (count + 1) (ciphers.receiving.encode crypto [] packet ++ rest) =
      receivePackets crypto (ciphers.received crypto) (count + 1) rest := by
  rw [receivePackets, receivePackets, Session.bind_eq, Session.bind_eq, Session.bind,
    Session.bind, v2ReceivePacket_ignored short ignored]

theorem receivePackets_stream (short : ∀ packet ∈ packets, packet.contents.length ≤ maxContentLen) :
    ∃ unread, receivePackets crypto ciphers (messages packets).length
        (ciphers.receiving.stream crypto [] packets) = ⟨.done (messages packets), unread, []⟩ := by
  induction packets generalizing ciphers with
  | nil => exact ⟨[], rfl⟩
  | cons packet packets ih =>
    rw [List.forall_mem_cons] at short
    obtain ⟨unread, later⟩ := @ih (ciphers.received crypto) short.2
    cases kind : packet.ignore with
    | true =>
      have same : messages (packet :: packets) = messages packets := by
        rw [messages, List.filter_cons_of_neg (by simp [kind]), messages]
      rw [same]
      cases empty : messages packets with
      | nil => exact ⟨_, rfl⟩
      | cons message others =>
        rw [empty, List.length_cons] at later
        refine ⟨unread, ?_⟩
        rw [List.length_cons, Direction.stream, receivePackets_ignored short.1 kind]
        exact later
    | false =>
      have more : messages (packet :: packets) = packet.contents :: messages packets := by
        rw [messages, List.filter_cons_of_pos (by simp [kind]), List.map_cons, messages]
      refine ⟨unread, ?_⟩
      rw [more, List.length_cons, receivePackets, Direction.stream,
        (runs_v2ReceivePacket short.1 kind).bind_apply]
      dsimp only
      rw [← Ciphers.receiving_received, Session.bind_done later]
      rfl

def versionPacket : Packet :=
  { contents := transportVersion, ignore := false }

structure Facing (net : UInt32) (initiating : Bool) (secret : FixedBytes 32)
    (node other : Node crypto) : Prop where
  ecdh : v2Ecdh crypto node.privKey other.ellswift node.ellswift initiating = .ok secret
  unambiguous :
    Unambiguous (createV2Ciphers crypto secret initiating net).recvGarbageTerm other.garbage

def Node.handshake (node : Node crypto) (ciphers : Ciphers) : Bytes :=
  node.ellswift.bytes ++ (node.garbage ++ ciphers.sendGarbageTerm ++
    ciphers.sending.encode crypto node.garbage versionPacket)

theorem length_recvGarbageTerm (secret : FixedBytes 32) (initiating : Bool) (net : UInt32) :
    (createV2Ciphers crypto secret initiating net).recvGarbageTerm.length = 16 := by
  cases initiating with
  | true => simp [createV2Ciphers, garbageSize]
  | false => simp [createV2Ciphers, garbageSize]

section Side

variable {net : UInt32} {initiating : Bool} {secret : FixedBytes 32} {node other : Node crypto}

theorem runs_start (fits : node.garbage.length ≤ maxGarbageLen) :
    Runs (node.start initiating) [] node.peer (node.ellswift.bytes ++ node.garbage) := by
  have generated : generateKeyAndGarbage node.ellswift node.garbage =
      .ok (node.ellswift.bytes ++ node.garbage) := by
    rw [generateKeyAndGarbage, require_pos fits]
    rfl
  rw [node.start_eq, initiateV2Handshake, generated, Session.check_ok, Session.pure_bind]
  exact (Runs.send _).map _

theorem runs_exchangeKeys (facing : Facing net initiating secret node other) :
    Runs (exchangeKeys crypto node.peer initiating net) other.ellswift.bytes
      (createV2Ciphers crypto secret initiating net) [] := by
  have computed : v2Ecdh crypto node.peer.privkeyOurs
      (FixedBytes.copy 64 other.ellswift.bytes) node.peer.ellswiftOurs initiating = .ok secret := by
    rw [FixedBytes.copy_bytes]
    exact facing.ecdh
  rw [← List.append_nil other.ellswift.bytes]
  refine (Runs.receive other.ellswift.length_bytes).bind ?_
  dsimp only
  rw [computed]
  exact Runs.pure _

theorem runs_sendVersion (ciphers : Ciphers) (garbage : Bytes) :
    Runs (sendVersion crypto ciphers garbage []) [] (ciphers.sent crypto)
      (ciphers.sendGarbageTerm ++ ciphers.sending.encode crypto garbage versionPacket) := by
  refine (Runs.send _).bind ?_
  have sent : Runs (v2EncPacket crypto ciphers transportVersion garbage false) [] _ _ :=
    @runs_v2EncPacket crypto ciphers garbage versionPacket (Nat.zero_le _)
  exact sent.map Prod.snd

def Ciphers.mirrored (ciphers : Ciphers) : Ciphers :=
  { sendL := ciphers.recvL
    sendP := ciphers.recvP
    sendGarbageTerm := ciphers.recvGarbageTerm
    recvL := ciphers.sendL
    recvP := ciphers.sendP
    recvGarbageTerm := ciphers.sendGarbageTerm }

theorem createV2Ciphers_not (secret : FixedBytes 32) (initiating : Bool) (net : UInt32) :
    createV2Ciphers crypto secret (!initiating) net =
      (createV2Ciphers crypto secret initiating net).mirrored := by
  cases initiating with
  | true => rfl
  | false => rfl

theorem Node.handshake_eq (node : Node crypto) (ciphers : Ciphers) :
    node.handshake ciphers = (node.ellswift.bytes ++ node.garbage) ++ (ciphers.sendGarbageTerm ++
        ciphers.sending.encode crypto node.garbage versionPacket) := by
  simp only [handshake, List.append_assoc]

def Node.stream (node : Node crypto) (ciphers : Ciphers) : Bytes :=
  node.handshake ciphers ++ (ciphers.sending.next crypto).stream crypto [] node.packets

theorem Node.stream_eq (node : Node crypto) (ciphers : Ciphers) :
    node.stream ciphers = (node.ellswift.bytes ++ node.garbage) ++
      ((ciphers.sendGarbageTerm ++ ciphers.sending.encode crypto node.garbage versionPacket) ++
        (ciphers.sending.next crypto).stream crypto [] node.packets) := by
  rw [stream, node.handshake_eq, List.append_assoc]

variable (facing : Facing net initiating secret node other) (plain : node.decoyContentLens = [])
  (fits : node.garbage.length ≤ maxGarbageLen) (fitsOther : other.garbage.length < maxGarbageLen)
  (short : ∀ packet ∈ node.packets, packet.contents.length ≤ maxContentLen)
  (shortOther : ∀ packet ∈ other.packets, packet.contents.length ≤ maxContentLen)

include facing fitsOther in
theorem runs_completeHandshake : Runs (completeHandshake crypto node.peer initiating [] net)
      (other.handshake (createV2Ciphers crypto secret initiating net).mirrored)
      (((createV2Ciphers crypto secret initiating net).sent crypto).received crypto)
      ((createV2Ciphers crypto secret initiating net).sendGarbageTerm ++
        (createV2Ciphers crypto secret initiating net).sending.encode crypto node.garbage
          versionPacket) := by
  have received := @runs_receiveVersion crypto
    ((createV2Ciphers crypto secret initiating net).sent crypto) other.garbage
    (length_recvGarbageTerm secret initiating net) facing.unambiguous fitsOther
  have versions := (runs_sendVersion (createV2Ciphers crypto secret initiating net)
    node.garbage).bind received
  rw [List.append_nil] at versions
  exact (runs_exchangeKeys facing).bind versions

theorem Node.run_eq (expected : Nat) (fits : node.garbage.length ≤ maxGarbageLen) (input : Bytes) :
    node.run initiating net expected input =
      ((completeHandshake crypto node.peer initiating node.decoyContentLens net >>=
          node.talk expected) input).after (node.ellswift.bytes ++ node.garbage) :=
  (runs_start fits).bind_apply input

theorem Node.run_started (expected : Nat) (fits : node.garbage.length ≤ maxGarbageLen)
    (input : Bytes) : node.ellswift.bytes ++ node.garbage <+:
      (node.run initiating net expected input).sent := by
  rw [node.run_eq expected fits]
  exact List.prefix_append _ _

include facing fits in
theorem Node.run_terminated (expected : Nat) {sent : Bytes}
    (sends : sent <+: (sendVersion crypto (createV2Ciphers crypto secret initiating net)
      node.garbage node.decoyContentLens []).sent) :
    node.ellswift.bytes ++ (node.garbage ++ sent) <+:
      (node.run initiating net expected other.ellswift.bytes).sent := by
  have keyed : sent <+: (completeHandshake crypto node.peer initiating node.decoyContentLens
      net (other.ellswift.bytes ++ [])).sent :=
    (runs_exchangeKeys facing).prefix_bind (sends.trans (Session.sent_bind _ _ _))
  rw [List.append_nil] at keyed
  rw [node.run_eq expected fits, ← List.append_assoc]
  exact (List.prefix_append_right_inj _).mpr (keyed.trans (Session.sent_bind _ _ _))

include facing plain fits in
theorem Node.run_keyed (expected : Nat) :
    node.handshake (createV2Ciphers crypto secret initiating net) <+:
      (node.run initiating net expected other.ellswift.bytes).sent := by
  have sends := @runs_sendVersion crypto (createV2Ciphers crypto secret initiating net)
    node.garbage []
  rw [handshake, List.append_assoc]
  apply node.run_terminated facing fits expected
  rw [plain]
  rw [show sendVersion crypto _ _ [] [] = _ from sends]

include short in
theorem Node.talk_sent (expected : Nat) (ciphers : Ciphers) (input : Bytes) :
    ciphers.sending.stream crypto [] node.packets <+: (node.talk expected ciphers input).sent := by
  exact (runs_sendPackets short).prefix_sent input

include facing plain fits fitsOther short in
theorem Node.run_handshaken (expected : Nat) :
    node.stream (createV2Ciphers crypto secret initiating net) <+: (node.run initiating net expected
        (other.handshake (createV2Ciphers crypto secret initiating net).mirrored)).sent := by
  have rest := (runs_completeHandshake facing fitsOther).prefix_bind
    (node.talk_sent short expected _ [])
  rw [List.append_nil] at rest
  rw [node.run_eq expected fits, node.stream_eq, plain]
  exact (List.prefix_append_right_inj _).mpr rest

include short shortOther in
theorem Node.talk_complete (ciphers : Ciphers) :
    ∃ unread, node.talk (messages other.packets).length ciphers
        (ciphers.receiving.stream crypto [] other.packets) =
      ⟨.done (messages other.packets), unread,
        ciphers.sending.stream crypto [] node.packets⟩ := by
  obtain ⟨unread, received⟩ :=
    @receivePackets_stream crypto (ciphers.sentAll crypto node.packets) _ shortOther
  rw [Ciphers.receiving_sentAll] at received
  refine ⟨unread, ?_⟩
  have sent : sendPackets crypto ciphers node.packets
      (ciphers.receiving.stream crypto [] other.packets) = _ := runs_sendPackets short _
  rw [talk, Session.bind_done sent, received, Session.Progress.after, List.append_nil]

include facing plain fits fitsOther short shortOther in
theorem Node.run_complete : ∃ unread, node.run initiating net (messages other.packets).length
        (other.stream (createV2Ciphers crypto secret initiating net).mirrored) =
      ⟨.done (messages other.packets), unread,
        node.stream (createV2Ciphers crypto secret initiating net)⟩ := by
  obtain ⟨unread, talked⟩ := node.talk_complete short shortOther
    (((createV2Ciphers crypto secret initiating net).sent crypto).received crypto)
  refine ⟨unread, ?_⟩
  rw [node.run_eq _ fits, plain, stream, (runs_completeHandshake facing fitsOther).bind_apply]
  have received : node.talk (messages other.packets).length
      (((createV2Ciphers crypto secret initiating net).sent crypto).received crypto)
      (((createV2Ciphers crypto secret initiating net).mirrored.sending.next
        crypto).stream crypto [] other.packets) = _ := talked
  rw [received, node.stream_eq]
  rfl

end Side

/-- Both sides compute the same point, and neither terminator occurs in the garbage by
chance. -/
structure Honest (net : UInt32) (point : FixedBytes 32) (initiator responder : Node crypto) :
    Prop where
  ecdh : crypto.ellswiftECDHXOnly responder.ellswift initiator.privKey = some point
  ecdhResponder : crypto.ellswiftECDHXOnly initiator.ellswift responder.privKey = some point
  unambiguous : Unambiguous (createV2Ciphers crypto (crypto.ellswiftHash
    (initiator.ellswift.bytes ++ responder.ellswift.bytes ++ point.bytes)) true
      net).sendGarbageTerm initiator.garbage
  unambiguousResponder : Unambiguous (createV2Ciphers crypto (crypto.ellswiftHash
    (initiator.ellswift.bytes ++ responder.ellswift.bytes ++ point.bytes)) false
      net).sendGarbageTerm responder.garbage
  short : ∀ packet ∈ initiator.packets, packet.contents.length ≤ maxContentLen
  shortResponder : ∀ packet ∈ responder.packets, packet.contents.length ≤ maxContentLen

namespace Honest

variable {net : UInt32} {point : FixedBytes 32} {initiator responder : Node crypto}

variable (honest : Honest net point initiator responder)
include honest

theorem facing :
    Facing net true (crypto.ellswiftHash
      (initiator.ellswift.bytes ++ responder.ellswift.bytes ++ point.bytes))
      initiator responder where
  ecdh := by
    rw [v2Ecdh, honest.ecdh]
    rfl
  unambiguous := honest.unambiguousResponder

theorem facingResponder :
    Facing net false (crypto.ellswiftHash
      (initiator.ellswift.bytes ++ responder.ellswift.bytes ++ point.bytes))
      responder initiator where
  ecdh := by
    rw [v2Ecdh, honest.ecdhResponder]
    rfl
  unambiguous := honest.unambiguous

/-- The two sides answer each other up to the end, and are not stuck before: the keys are
sent without any input, the handshake on the other's key and the packets on the other's
handshake. -/
theorem completes (fits : initiator.garbage.length < maxGarbageLen)
    (fitsResponder : responder.garbage.length < maxGarbageLen)
    (plain : initiator.decoyContentLens = []) (plainResponder : responder.decoyContentLens = []) :
    Duplex.Completes (initiator.run true net (messages responder.packets).length)
      (responder.run false net (messages initiator.packets).length)
      (messages responder.packets) (messages initiator.packets) := by
  have facing := honest.facing
  have facingResponder := honest.facingResponder
  obtain ⟨unread, complete⟩ := Node.run_complete facing plain fits.le fitsResponder
    honest.short honest.shortResponder
  obtain ⟨unreadResponder, completeResponder⟩ := Node.run_complete facingResponder
    plainResponder fitsResponder.le fits honest.shortResponder honest.short
  apply Duplex.Completes.of_answers (initiator.causal_run _ _ _) (responder.causal_run _ _ _)
    (congrArg (·.sent) completeResponder) (congrArg (·.sent) complete)
    (congrArg (·.outcome) complete) (congrArg (·.outcome) completeResponder)
  intro atFirst atSecond answers answered
  have further {sent input : Bytes} (extended : input <+: atFirst)
      (sends : sent <+: (initiator.run true net (messages responder.packets).length
        input).sent) : sent <+: atSecond := by
    rw [← answered]
    exact sends.trans ((initiator.causal_run _ _ _).sent_mono extended)
  have furtherResponder {sent input : Bytes} (extended : input <+: atSecond)
      (sends : sent <+: (responder.run false net (messages initiator.packets).length
        input).sent) : sent <+: atFirst := by
    rw [← answers]
    exact sends.trans ((responder.causal_run _ _ _).sent_mono extended)
  have key := further List.nil_prefix
    ((List.prefix_append _ _).trans (initiator.run_started _ fits.le []))
  have keyResponder := furtherResponder List.nil_prefix
    ((List.prefix_append _ _).trans (responder.run_started _ fitsResponder.le []))
  have handshake := further keyResponder (Node.run_keyed facing plain fits.le _)
  have handshakeResponder := furtherResponder key
    (Node.run_keyed facingResponder plainResponder fitsResponder.le _)
  exact ⟨furtherResponder handshake (Node.run_handshaken facingResponder plainResponder
      fitsResponder.le fits honest.shortResponder _), further handshakeResponder
      (Node.run_handshaken facing plain fits.le fitsResponder honest.short _)⟩

end Honest

end ModelOS.V2Transport
