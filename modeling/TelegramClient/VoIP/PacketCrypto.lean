import TelegramClient.Secret.MessageCrypto
import TelegramClient.VoIP.PacketHeader

/-!
# The encryption of call packets

A datagram is a tag, the fingerprint of the key, a message key made from the plaintext, and the plaintext under AES-IGE.
There are two modes: the older one hashes with SHA-1, MTProto 2 with SHA-256. The two sides take their part of the key
at different offsets.

* `kdf`, `kdf2` : the AES key and iv of a datagram;
* `sealPacket`, `sealPacket2`, `sendPacket` : the sender;
* `openPacket`, `openPacket2`, `processIncomingPacket` : the receiver, up to the stream that the header is read from.

SHA-1, SHA-256 and AES are arbitrary functions of the right sizes. The buffers have room: `out` is 128 bytes longer than
the plaintext.
-/

namespace TelegramClient.VoIP

open MtProto Secret

/-- What `SendPacket` and `ProcessIncomingPacket` read of the controller. -/
structure CallCipher where
  encryptionKey : Block 256
  isOutgoing : Bool
  useMTProto2 : Bool
  state : CallState
  stopping : Bool
  useTCP : Bool

/-- `TYPE_*`. -/
inductive EndpointType where
  | udpP2pInet
  | udpP2pLan
  | udpRelay
  | tcpRelay
deriving DecidableEq

structure Endpoint where
  type : EndpointType
  peerTag : Block 16

def Endpoint.isRelay (ep : Endpoint) : Bool := ep.type == .udpRelay || ep.type == .tcpRelay

section
variable (crypto : SecretCrypto)

/-! ## Keys -/

/-- `SetEncryptionKey`: the last eight bytes of SHA-1. -/
def keyFingerprint (key : Block 256) : Bytes := slice (crypto.mtSha1 key.toList).toList (20 - 8) 8

/-- `SetEncryptionKey`: the last 16 bytes of SHA-256. -/
def callID (key : Block 256) : Bytes := slice (crypto.mtSha256 key.toList).toList (32 - 16) 16

def kdf (key : Block 256) (msgKey : Bytes) (x : Nat) : MTMessageEncryptionKey :=
  keyDataV1 (crypto.mtSha1 (msgKey ++ slice key.toList x 32))
    (crypto.mtSha1 (slice key.toList (32 + x) 16 ++ msgKey ++ slice key.toList (48 + x) 16))
    (crypto.mtSha1 (slice key.toList (64 + x) 32 ++ msgKey))
    (crypto.mtSha1 (msgKey ++ slice key.toList (96 + x) 32))

def kdf2 (key : Block 256) (msgKey : Bytes) (x : Nat) : MTMessageEncryptionKey :=
  keyDataV2 (crypto.mtSha256 (msgKey ++ slice key.toList x 36))
    (crypto.mtSha256 (slice key.toList (40 + x) 36 ++ msgKey))

def CallCipher.tag (c : CallCipher) (ep : Endpoint) : Bytes :=
  if ep.isRelay then ep.peerTag.toList else callID crypto c.encryptionKey

/-! ## Sending -/

/-- `padLen` of MTProto 2, and of the older mode. -/
def padLen (v2 : Bool) (length : Nat) : Nat :=
  if v2 then
    let padLen := 16 - length % 16
    if padLen < 12 then padLen + 16 else padLen
  else if length % 16 ≠ 0 then 16 - length % 16
  else 0

/-- `inner`: the length, the plaintext and random bytes. -/
def inner (v2 : Bool) (padding : Block 28) (data : Bytes) : Bytes :=
  withLength data ++ padding.toList.take (padLen v2 (withLength data).length)

/-- What a datagram has behind its tag, in MTProto 2. -/
def sealPacket2 (c : CallCipher) (padding : Block 28) (data : Bytes) : Bytes :=
  let inner := inner true padding data
  let x := if c.isOutgoing then 0 else 8
  let msgKey := messageKeyV2 crypto c.encryptionKey.toList x (inner.drop 4)
  let keys := kdf2 crypto c.encryptionKey msgKey x
  keyFingerprint crypto c.encryptionKey ++ msgKey ++ mtAesEncryptInplace crypto.aes inner keys.key keys.iv

/-- What a datagram has behind its tag, in the older mode. -/
def sealPacket (c : CallCipher) (padding : Block 28) (data : Bytes) : Bytes :=
  let inner := inner false padding data
  let msgHash := messageKeyV1 crypto (inner.take (data.length + 4))
  let keys := kdf crypto c.encryptionKey msgHash (if c.isOutgoing then 0 else 8)
  keyFingerprint crypto c.encryptionKey ++ msgHash ++ mtAesEncryptInplace crypto.aes inner keys.key keys.iv

/-- The datagram that `SendPacket` sends. -/
def sendPacket (c : CallCipher) (ep : Endpoint) (padding : Block 28) (data : Bytes) : Option Bytes :=
  if c.stopping then none
  else if ep.type = .tcpRelay ∧ c.useTCP = false then none
  else
    some (c.tag crypto ep ++
      if 0 < data.length then
        if c.useMTProto2 then sealPacket2 crypto c padding data else sealPacket crypto c padding data
      else [])

/-! ## Receiving -/

inductive Dropped where
  | wrongPeerTag
  | tooSmall
  | wrongFingerprint
  | wrongHash
  | tooLong
  | wrongInnerLength
  | tooLittlePadding
deriving DecidableEq

inductive PacketOutcome where
  | dropped (why : Dropped)
  /-- A relay answers a request of its own. -/
  | relayResponse
  /-- The header is read from this stream, and this is `useMTProto2` then. -/
  | opened (stream : Bytes) (useMTProto2 : Bool)
deriving DecidableEq

/-- The checks of MTProto 2 on the decrypted bytes. -/
def checkDecrypted2 (c : CallCipher) (msgKey decrypted : Bytes) : PacketOutcome :=
  let x := if c.isOutgoing then 8 else 0
  if msgKey ≠ messageKeyV2 crypto c.encryptionKey.toList x (decrypted.drop 4) then .dropped .wrongHash
  else
    let innerLen := (ofLeBits 32 (slice decrypted 0 4)).toNat
    if decrypted.length - 4 < innerLen then .dropped .wrongInnerLength
    else if decrypted.length - innerLen < 12 then .dropped .tooLittlePadding
    else .opened (slice decrypted 4 innerLen) true

def openPacket2 (c : CallCipher) (buffer : Bytes) : PacketOutcome :=
  let fingerprint := slice buffer 16 8
  let msgKey := slice buffer (16 + 8) 16
  let body := buffer.drop (16 + 8 + 16)
  if fingerprint ≠ keyFingerprint crypto c.encryptionKey then .dropped .wrongFingerprint
  else
    let keys := kdf2 crypto c.encryptionKey msgKey (if c.isOutgoing then 8 else 0)
    if 1500 < body.length then .dropped .tooLong
    else checkDecrypted2 crypto c msgKey (mtAesDecrypt crypto.aes body keys.key keys.iv)

/-- The prefix of the decrypted bytes that the older mode hashes. -/
def hashedPrefix (aesOut : Bytes) : Bytes :=
  let len := min (ofLeBits 32 (slice aesOut 0 4)).toNat (aesOut.length - 4)
  aesOut.take (len + 4)

/-- The part for the older mode. Before the peer is known MTProto 2 is tried next. -/
def openPacket (c : CallCipher) (buffer : Bytes) : PacketOutcome :=
  let fingerprint := slice buffer 16 8
  let msgHash := slice buffer (16 + 8) 16
  let body := buffer.drop (16 + 8 + 16)
  if fingerprint ≠ keyFingerprint crypto c.encryptionKey then .dropped .wrongFingerprint
  else
    let keys := kdf crypto c.encryptionKey msgHash (if c.isOutgoing then 8 else 0)
    let aesOut := mtAesDecrypt crypto.aes body keys.key keys.iv
    if msgHash ≠ messageKeyV1 crypto (hashedPrefix aesOut) then
      if c.state = .waitInit ∨ c.state = .waitInitAck then openPacket2 crypto c buffer else .dropped .wrongHash
    else .opened (aesOut.drop 4) false

/-- `ProcessIncomingPacket`, up to the header. -/
def processIncomingPacket (c : CallCipher) (srcEndpoint : Endpoint) (buffer : Bytes) : PacketOutcome :=
  if slice buffer 0 16 ≠ c.tag crypto srcEndpoint then .dropped .wrongPeerTag
  else if 16 ≤ buffer.length - 16 ∧ srcEndpoint.isRelay ∧ slice buffer 16 12 = List.replicate 12 0xFF then
    .relayResponse
  else if buffer.length - 16 < 40 then .dropped .tooSmall
  else if c.useMTProto2 then openPacket2 crypto c buffer
  else openPacket crypto c buffer

end

end TelegramClient.VoIP
