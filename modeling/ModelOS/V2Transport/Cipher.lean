import ModelOS.Data.Bytes
import ModelOS.Data.Checked

namespace ModelOS.V2Transport

open Data

inductive TransportError
  | garbageTermNotRecv
  | contentLengthExceeded
  | garbageTooLarge
  | ecdh
  | openFailed
  | sliceOutOfRange
deriving DecidableEq

/-- The primitives of the transport, of which it is only known that a sealed text opens
to what was sealed. -/
structure Crypto where
  PrivateKey : Type
  ellswiftECDHXOnly : FixedBytes 64 → PrivateKey → Option (FixedBytes 32)
  ellswiftHash : Bytes → FixedBytes 32
  extract : (secret salt : Bytes) → Bytes
  expand : (prk info : Bytes) → FixedBytes 32
  keyStream : (key : FixedBytes 32) → (nonce : FixedBytes 12) → (position : Nat) → UInt8
  aeadSeal : (key : FixedBytes 32) → (nonce : FixedBytes 12) → (plaintext aad : Bytes) → Bytes
  aeadOpen : (key : FixedBytes 32) → (nonce : FixedBytes 12) →
    (ciphertext aad : Bytes) → Option Bytes
  length_aeadSeal : ∀ key nonce plaintext aad,
    (aeadSeal key nonce plaintext aad).length = plaintext.length + 16
  aeadOpen_aeadSeal : ∀ key nonce plaintext aad,
    aeadOpen key nonce (aeadSeal key nonce plaintext aad) aad = some plaintext

variable (crypto : Crypto)

/-- The initiator's key comes first on both sides. -/
def v2Ecdh (priv : crypto.PrivateKey) (ellswiftTheirs ellswiftOurs : FixedBytes 64)
    (initiating : Bool) : Except TransportError (FixedBytes 32) := do
  let ecdhPoint ← present (crypto.ellswiftECDHXOnly ellswiftTheirs priv) .ecdh
  if initiating then
    .ok (crypto.ellswiftHash (ellswiftOurs.bytes ++ ellswiftTheirs.bytes ++ ecdhPoint.bytes))
  else
    .ok (crypto.ellswiftHash (ellswiftTheirs.bytes ++ ellswiftOurs.bytes ++ ecdhPoint.bytes))

def rekeyInterval : UInt64 := 224

/-! Packets: a new nonce for every packet and a new key for every interval. -/

structure FSChaCha20Poly1305 where
  key : FixedBytes 32
  packetCtr : UInt64
deriving DecidableEq

namespace FSChaCha20Poly1305

def new (initialKey : FixedBytes 32) : FSChaCha20Poly1305 :=
  { key := initialKey, packetCtr := 0 }

def nonce (cipher : FSChaCha20Poly1305) : FixedBytes 12 :=
  ⟨leBytes 4 (cipher.packetCtr % rekeyInterval).toNat ++
    leBytes 8 (cipher.packetCtr / rekeyInterval).toNat, by simp⟩

def rekeyNonce (cipher : FSChaCha20Poly1305) : FixedBytes 12 :=
  ⟨[0xff, 0xff, 0xff, 0xff] ++ leBytes 8 (cipher.packetCtr / rekeyInterval).toNat, by simp⟩

def advance (cipher : FSChaCha20Poly1305) : FSChaCha20Poly1305 :=
  if (cipher.packetCtr + 1) % rekeyInterval = 0 then
    { key := FixedBytes.copy 32
        (crypto.aeadSeal cipher.key cipher.rekeyNonce (FixedBytes.zero 32).bytes [])
      packetCtr := cipher.packetCtr + 1 }
  else { cipher with packetCtr := cipher.packetCtr + 1 }

def crypt (cipher : FSChaCha20Poly1305) (aad text : Bytes) (decrypt : Bool) :
    Except TransportError (Bytes × FSChaCha20Poly1305) := do
  let result ←
    if decrypt then
      present (crypto.aeadOpen cipher.key cipher.nonce text aad) .openFailed
    else .ok (crypto.aeadSeal cipher.key cipher.nonce text aad)
  return (result, cipher.advance crypto)

def encrypt (cipher : FSChaCha20Poly1305) (aad plaintext : Bytes) :
    Except TransportError (Bytes × FSChaCha20Poly1305) :=
  cipher.crypt crypto aad plaintext false

def decrypt (cipher : FSChaCha20Poly1305) (aad ciphertext : Bytes) :
    Except TransportError (Bytes × FSChaCha20Poly1305) :=
  cipher.crypt crypto aad ciphertext true

theorem encrypt_eq (cipher : FSChaCha20Poly1305) (aad plaintext : Bytes) :
    cipher.encrypt crypto aad plaintext =
      .ok (crypto.aeadSeal cipher.key cipher.nonce plaintext aad, cipher.advance crypto) :=
  rfl

theorem decrypt_seal (cipher : FSChaCha20Poly1305) (aad plaintext : Bytes) :
    cipher.decrypt crypto aad (crypto.aeadSeal cipher.key cipher.nonce plaintext aad) =
      .ok (plaintext, cipher.advance crypto) := by
  rw [decrypt, crypt, if_pos rfl, crypto.aeadOpen_aeadSeal]
  rfl

end FSChaCha20Poly1305

structure FSChaCha20 where
  key : FixedBytes 32
  chunkCtr : UInt64
  nonce : FixedBytes 12
  position : Nat
deriving DecidableEq

namespace FSChaCha20

def nonceOf (numRekeys : UInt64) : FixedBytes 12 :=
  ⟨[0, 0, 0, 0] ++ leBytes 8 numRekeys.toNat, by simp⟩

def new (initialKey : FixedBytes 32) : FSChaCha20 :=
  { key := initialKey, chunkCtr := 0, nonce := nonceOf 0, position := 0 }

/-- The next bytes of the key stream. -/
def stream (cipher : FSChaCha20) (start count : Nat) : Bytes :=
  (List.range count).map fun index =>
    crypto.keyStream cipher.key cipher.nonce (start + index)

def xor (text mask : Bytes) : Bytes :=
  List.zipWith (· ^^^ ·) text mask

def advance (cipher : FSChaCha20) (textLen : Nat) : FSChaCha20 :=
  if (cipher.chunkCtr + 1) % rekeyInterval = 0 then
    { key := ⟨cipher.stream crypto (cipher.position + textLen) 32, by simp [stream]⟩
      chunkCtr := cipher.chunkCtr + 1
      nonce := nonceOf ((cipher.chunkCtr + 1) / rekeyInterval)
      position := 0 }
  else
    { cipher with
      chunkCtr := cipher.chunkCtr + 1
      position := cipher.position + textLen }

def crypt (cipher : FSChaCha20) (text : Bytes) : Bytes × FSChaCha20 :=
  (xor text (cipher.stream crypto cipher.position text.length), cipher.advance crypto text.length)

theorem length_crypt (cipher : FSChaCha20) (text : Bytes) :
    (cipher.crypt crypto text).1.length = text.length := by
  simp [crypt, xor, stream]

theorem xor_xor (length : mask.length = text.length) :
    xor (xor text mask) mask = text := by
  induction text generalizing mask with
  | nil => rfl
  | cons byte text ih =>
    cases mask with
    | nil => cases length
    | cons first mask =>
      have rest := ih (Nat.succ.inj length)
      have head : (byte ^^^ first) ^^^ first = byte := by simp
      exact congrArg₂ List.cons head rest

theorem crypt_crypt (cipher : FSChaCha20) (text : Bytes) :
    cipher.crypt crypto (cipher.crypt crypto text).1 = (text, (cipher.crypt crypto text).2) := by
  rw [crypt, length_crypt]
  refine Prod.ext ?_ rfl
  exact xor_xor (by simp [stream])

end FSChaCha20

end ModelOS.V2Transport
